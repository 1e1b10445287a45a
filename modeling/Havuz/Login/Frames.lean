import Mathlib
import Havuz.Scram.Exchange
import Havuz.Startup

/-!
# The frames of a login

Reference: the authentication messages of `havuz-pg/src/protocol.rs`, `parse_sasl_initial` in
`havuz-pg/src/session.rs`, `parse_mechanisms` and `parse_parameter_status` in `havuz-pg/src/backend.rs`.
havuz stands on both ends of a login: it lets clients in and it logs in to databases. What one end writes
the other end's parser takes apart again.
-/

namespace Havuz

theorem map_eq_ok {ε α β : Type} {f : α → β} {x : Except ε α} {b : β} :
    x.map f = .ok b ↔ ∃ a, x = .ok a ∧ f a = b := by
  cases x with
  | error e => simp [Except.map]
  | ok a => simp [Except.map]

/-! ## What the server writes -/

namespace Message

/-- An authentication request: its kind and what belongs to it. -/
def authentication (kind : ℤ) (data : Bytes) : Message := ⟨byte 'R', putI32 kind ++ data⟩

theorem authenticationOk_eq : authenticationOk = authentication 0 [] := by decide

/-- `AuthenticationCleartextPassword`. -/
def authenticationCleartext : Message := authentication 3 []

/-- The one mechanism either end knows. -/
def mechanismName : Text := "SCRAM-SHA-256".toList

/-- `AuthenticationSASL` advertising SCRAM-SHA-256. -/
def authenticationSasl : Message := authentication 10 (Text.asBytes mechanismName ++ [0, 0])

def authenticationSaslContinue (data : Bytes) : Message := authentication 11 data

def authenticationSaslFinal (data : Bytes) : Message := authentication 12 data

def parameterStatus (name value : Text) : Message := ⟨byte 'S', cstring name ++ cstring value⟩

def backendKeyData (processId secretKey : ℤ) : Message := ⟨byte 'K', putI32 processId ++ putI32 secretKey⟩

/-! ## What the client writes -/

/-- The answer to a request for the password itself. -/
def password (text : Text) : Message := ⟨byte 'p', cstring text⟩

/-- `SASLInitialResponse`: the mechanism, and the first message behind its length. -/
def saslInitial (first : Bytes) : Message :=
  ⟨byte 'p', Text.asBytes mechanismName ++ 0 :: (i32Bytes first.length ++ first)⟩

def saslResponse (final : Bytes) : Message := ⟨byte 'p', final⟩

end Message

/-! ## The parsers -/

/-- `parse_sasl_initial`. -/
def parseSaslInitial (body : Bytes) : Except HandshakeError Bytes :=
  match takeCstring body with
  | none => .error (.protocol "SASLInitialResponse has no mechanism name".toList)
  | some (name, rest) =>
      match fromUtf8 name with
      | none => .error (.protocol "mechanism is not utf-8".toList)
      | some mechanism =>
          if mechanism ≠ Message.mechanismName then
            .error (.auth ("unsupported SASL mechanism '".toList ++ mechanism ++ "'".toList))
          else
            match getI32 rest with
            | none => .error (.protocol "SASLInitialResponse is truncated".toList)
            | some (len, rest) =>
                if len < 0 then .error (.protocol "SASLInitialResponse carries no payload".toList)
                else if rest.length < len.toNat then
                  .error (.protocol "SASLInitialResponse length exceeds the message".toList)
                else .ok (rest.take len.toNat)

/-- `parse_mechanisms`. -/
def parseMechanisms (body : Bytes) : List Text :=
  ((body.splitOn 0).filter fun part => !part.isEmpty).map fromUtf8Lossy

/-- `parse_parameter_status`. -/
def parseParameterStatus (body : Bytes) : Option (Text × Text) :=
  match body.splitOn 0 with
  | key :: value :: _ => some (fromUtf8Lossy key, fromUtf8Lossy value)
  | _ => none

/-- `ScramError`'s `Display`. -/
def Scram.ScramError.text : Scram.ScramError → Text
  | .malformed what => "malformed SCRAM message: ".toList ++ what.toList
  | .unsupported what => "unsupported SCRAM feature: ".toList ++ what.toList
  | .authenticationFailed => "authentication failed".toList
  | .badServerSignature => "server signature did not verify; the backend may be impersonated".toList
  | .outOfOrder => "SCRAM exchange used out of order".toList

/-! ## Round trips -/

theorem getI32_length {n : ℕ} (h : n < 2 ^ 31) (rest : Bytes) : getI32 (i32Bytes n ++ rest) = some ((n : ℤ), rest) := by
  have hread := @getI32_putI32 (n : ℤ) ⟨by omega, by omega⟩ rest
  have hbytes : ((n : ℤ) % 2 ^ 32).toNat = n := by omega
  rwa [putI32, hbytes] at hread

/-- The payload of a SASLInitialResponse is read back. -/
theorem parseSaslInitial_saslInitial {first : Bytes} (h : first.length < 2 ^ 31) :
    parseSaslInitial (Message.saslInitial first).body = .ok first := by
  have hname : (0 : UInt8) ∉ Text.asBytes Message.mechanismName := by decide
  rw [parseSaslInitial, Message.saslInitial, takeCstring_append hname]
  dsimp only
  rw [fromUtf8_asBytes]
  dsimp only
  rw [if_neg (not_not.mpr rfl), getI32_length h]
  dsimp only
  rw [if_neg (by omega), Int.toNat_natCast, if_neg (lt_irrefl _), List.take_length]

/-- havuz offers what havuz looks for. -/
theorem mem_parseMechanisms : Message.mechanismName ∈ parseMechanisms (Text.asBytes Message.mechanismName ++ [0, 0]) := by
  decide

theorem parseParameterStatus_parameterStatus {name value : Text} (hname : 0 ∉ name.asBytes) (hvalue : 0 ∉ value.asBytes) :
    parseParameterStatus (Message.parameterStatus name value).body = some (name, value) := by
  have hbytes : (Message.parameterStatus name value).body = name.asBytes ++ 0 :: (value.asBytes ++ 0 :: []) := by
    simp [Message.parameterStatus, Message.cstring]
  rw [parseParameterStatus, hbytes, List.splitOn_append_cons_self_of_not_mem hname,
    List.splitOn_append_cons_self_of_not_mem hvalue]
  simp only [fromUtf8Lossy_asBytes]

/-- What is decoded holds a NUL only where the bytes do. -/
theorem zero_notMem_utf8Decode (fuel : ℕ) {bs : Bytes} (h : (0 : UInt8) ∉ bs) :
    ∀ c ∈ utf8Decode fuel bs, (0 : UInt8) ∉ String.utf8EncodeChar (c.getD (Char.ofNat 0xFFFD)) := by
  induction fuel generalizing bs with
  | zero => simp [utf8Decode]
  | succ fuel ih =>
      cases bs with
      | nil => simp [utf8Decode]
      | cons b rest =>
          rw [utf8Decode, List.forall_mem_cons]
          constructor
          · cases hx : (utf8Step b rest).1 with
            | none => decide
            | some x =>
                have hstep : b :: rest = String.utf8EncodeChar x ++ rest.drop (utf8Step b rest).2 :=
                  encode_utf8Step (Prod.ext hx rfl)
                rw [hstep] at h
                exact fun hmem => h (List.mem_append_left _ hmem)
          · exact ih fun hmem => h (List.mem_cons_of_mem _ (List.mem_of_mem_drop hmem))

theorem zero_notMem_fromUtf8Lossy {bs : Bytes} (h : (0 : UInt8) ∉ bs) : (0 : UInt8) ∉ Text.asBytes (fromUtf8Lossy bs) := by
  rw [Text.asBytes, fromUtf8Lossy, List.flatMap_map, List.mem_flatMap]
  rintro ⟨c, hc, hmem⟩
  exact zero_notMem_utf8Decode bs.length h c hc hmem

theorem notMem_of_mem_splitOn {c : UInt8} {bs part : Bytes} (h : part ∈ bs.splitOn c) : c ∉ part := by
  induction hlength : bs.length using Nat.strongRecOn generalizing bs with
  | ind n ih =>
      by_cases hmem : c ∈ bs
      · obtain ⟨before, rest, rfl, hbefore⟩ := List.eq_append_cons_of_mem hmem
        rw [List.splitOn_append_cons_self_of_not_mem hbefore, List.mem_cons] at h
        obtain rfl | h := h
        · exact hbefore
        · refine ih rest.length ?_ h rfl
          rw [← hlength, List.length_append, List.length_cons]
          omega
      · rw [List.splitOn_eq_singleton hmem, List.mem_singleton] at h
        rwa [h]

/-- A parameter that was reported can be reported on. -/
theorem zero_notMem_of_parseParameterStatus {body : Bytes} {name value : Text}
    (h : parseParameterStatus body = some (name, value)) :
    0 ∉ name.asBytes ∧ 0 ∉ value.asBytes := by
  unfold parseParameterStatus at h
  split at h
  case h_1 key text rest hsplit =>
    cases h
    have hparts : ∀ part ∈ body.splitOn 0, (0 : UInt8) ∉ part := fun part hpart => notMem_of_mem_splitOn hpart
    rw [hsplit] at hparts
    exact ⟨zero_notMem_fromUtf8Lossy (hparts key List.mem_cons_self),
      zero_notMem_fromUtf8Lossy (hparts text (List.mem_cons_of_mem _ List.mem_cons_self))⟩
  case h_2 => cases h

end Havuz
