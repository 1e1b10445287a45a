import Havuz.Text

/-!
# Wire messages

Reference: `havuz-pg/src/protocol.rs`. A message is a tag byte and a body. The two directions share the
tag space: `E` is Execute from the client and ErrorResponse from the backend, `C` is Close and
CommandComplete, `S` is Sync and ParameterStatus.
-/

namespace Havuz

/-- The byte in `ReadyForQuery`. -/
inductive TransactionStatus where
  /-- No transaction open: the backend is releasable. -/
  | idle
  /-- Inside a transaction block. -/
  | inTransaction
  /-- Inside a failed transaction block; the client still owes a rollback. -/
  | failed
deriving DecidableEq, Repr

namespace TransactionStatus

def asByte : TransactionStatus → UInt8
  | idle => byte 'I'
  | inTransaction => byte 'T'
  | failed => byte 'E'

def fromByte (b : UInt8) : Option TransactionStatus :=
  if b = byte 'I' then some idle
  else if b = byte 'T' then some inTransaction
  else if b = byte 'E' then some failed
  else none

@[simp] theorem fromByte_asByte (s : TransactionStatus) : fromByte s.asByte = some s := by
  cases s <;> decide

end TransactionStatus

/-- Any message after the startup exchange. -/
structure Message where
  tag : UInt8
  body : Bytes
deriving DecidableEq, Repr

namespace Message

/-- Total wire size including tag and length prefix. -/
def wireLen (m : Message) : Nat := 1 + 4 + m.body.length

/-- A NUL-terminated string. -/
def cstring (t : Text) : Bytes := t.asBytes ++ [0]

/-- A simple query, as `sync_params` and `simple_query` build it. -/
def query (sql : Text) : Message := ⟨byte 'Q', cstring sql⟩

/-- `Flush`. -/
def flush : Message := ⟨byte 'H', []⟩

/-- `Sync`. -/
def sync : Message := ⟨byte 'S', []⟩

/-- `Terminate`. -/
def terminate : Message := ⟨byte 'X', []⟩

/-- `Message::ready_for_query`. -/
def readyForQuery (status : TransactionStatus) : Message := ⟨byte 'Z', [status.asByte]⟩

/-- One field of an error body: identifier, text, NUL. -/
def errorField (c : Char) (value : Text) : Bytes := byte c :: cstring value

/-- `Message::error_response`. -/
def errorResponse (severity code message : Text) : Message :=
  ⟨byte 'E', errorField 'S' severity ++ errorField 'V' severity ++ errorField 'C' code ++
    errorField 'M' message ++ [0]⟩

/-- `Message::fatal`: an error that also terminates the connection. -/
def fatal (code message : Text) : Message := errorResponse "FATAL".toList code message

/-- `Message::transaction_status`. -/
def transactionStatus (m : Message) : Option TransactionStatus :=
  if m.tag = byte 'Z' then
    match m.body with
    | [b] => TransactionStatus.fromByte b
    | _ => none
  else none

@[simp] theorem transactionStatus_readyForQuery (s : TransactionStatus) :
    (readyForQuery s).transactionStatus = some s := by
  simp [readyForQuery, transactionStatus]

theorem readyForQuery_inj {s s' : TransactionStatus} (h : readyForQuery s = readyForQuery s') :
    s = s' := by
  have hstatus := congrArg transactionStatus h
  simpa using hstatus

/-- A message that carries a status is a `ReadyForQuery`. -/
theorem eq_readyForQuery_of_transactionStatus {m : Message} {s : TransactionStatus}
    (h : m.transactionStatus = some s) : m = readyForQuery s := by
  obtain ⟨tag, body⟩ := m
  simp only [transactionStatus] at h
  split at h
  case isFalse => simp at h
  case isTrue htag =>
    match body, h with
    | [b], h =>
      have hb : b = s.asByte := by
        simp only [TransactionStatus.fromByte] at h
        split at h
        case isTrue hI => cases h; exact hI
        case isFalse =>
          split at h
          case isTrue hT => cases h; exact hT
          case isFalse =>
            split at h
            case isTrue hE => cases h; exact hE
            case isFalse => cases h
      rw [htag, hb, readyForQuery]
    | [], h => simp at h
    | _ :: _ :: _, h => simp at h

/-- The NUL-terminated fields of an error body: identifier byte and text. The empty field ends it. -/
def errorFieldsAux : Nat → Bytes → List (UInt8 × Text)
  | 0, _ => []
  | fuel + 1, rest =>
      if rest.contains 0 then
        match rest.takeWhile (· ≠ 0) with
        | [] => []
        | field :: value =>
            (field, fromUtf8Lossy value) ::
              errorFieldsAux fuel ((rest.dropWhile (· ≠ 0)).drop 1)
      else []

/-- `Message::error_fields`. -/
def errorFields (m : Message) : List (UInt8 × Text) := errorFieldsAux m.body.length m.body

/-- The `M` field of an error, the first one if there are several. -/
def errorMessage (m : Message) : Option Text :=
  (m.errorFields.find? fun f => f.1 = byte 'M').map Prod.snd

end Message

/-! ## Codes havuz raises on its own behalf -/

namespace Sqlstate

def tooManyConnections : Text := "53300".toList
def cannotConnectNow : Text := "57P03".toList
def protocolViolation : Text := "08P01".toList
def adminShutdown : Text := "57P01".toList
def invalidParameterValue : Text := "22023".toList
def readOnlySqlTransaction : Text := "25006".toList
def idleInTransactionSessionTimeout : Text := "25P03".toList

end Sqlstate

/-- `ProtoError`, the constructors the relay raises. The text of an operating system error is not part
of the model. -/
inductive ProtoError where
  | io (detail : Text)
  | protocol (detail : Text)
  | backend (detail : Text)
deriving DecidableEq, Repr

/-- `ProtoError`'s `Display`. -/
def ProtoError.text : ProtoError → Text
  | .io d => "io: ".toList ++ d
  | .protocol d => "protocol violation: ".toList ++ d
  | .backend d => "backend unavailable: ".toList ++ d

end Havuz
