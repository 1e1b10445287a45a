import Havuz.Lib.Run
import Havuz.Scram.Verifier

/-!
# SCRAM-SHA-256, both halves

Reference: `havuz-pg/src/scram.rs`. `ScramServer` authenticates an incoming client, `ScramClient` havuz to a
backend. A call takes the state and gives it back beside its result, as a method on `&mut self` does; the
nonce `make_nonce` makes is handed in.
-/

namespace Havuz.Scram

inductive ScramError where
  | malformed (what : String)
  | unsupported (what : String)
  | authenticationFailed
  | badServerSignature
  | outOfOrder
deriving DecidableEq, Repr

/-! ## Messages -/

/-- Split the gs2 header from the bare message: it ends at the second comma. -/
def splitGs2 (message : Text) : Except ScramError (Text × Text) := do
  let (gs2, rest) ← okOr (.malformed "missing gs2 header") (Text.splitOnce ',' message)
  let (_, bare) ← okOr (.malformed "missing gs2 header") (Text.splitOnce ',' rest)
  return (gs2, bare)

/-- `key=value`. -/
def attr (key : Char) (value : Text) : Text := key :: '=' :: value

/-- The value of the first attribute with this key. -/
def field (message : Text) (key : Char) : Option Text :=
  (Text.split ',' message).findSome? fun part =>
    match part with
    | k :: '=' :: value => if k = key then some value else none
    | _ => none

/-- `AuthMessage` from RFC 5802. -/
def authMessage (clientFirstBare serverFirst withoutProof : Text) : Text :=
  clientFirstBare ++ ',' :: (serverFirst ++ ',' :: withoutProof)

def constantTimeEq (a b : Bytes) : Bool :=
  if a.length ≠ b.length then false else (List.zipWith (· ^^^ ·) a b).foldl (· ||| ·) 0 == 0

variable (P : Primitives)

/-! ## The server -/

inductive ServerState where
  | initial
  | awaitingFinal (clientFirstBare serverFirst nonce : Text)
  | done
deriving DecidableEq

/-- havuz authenticating an incoming client. -/
structure ScramServer where
  verifier : ScramVerifier
  state : ServerState := .initial

namespace ScramServer

def isDone (s : ScramServer) : Bool := s.state = .done

/-- What `server_first` takes from the message: its bare part and the client's nonce. -/
def readFirst (clientFirst : Bytes) : Except ScramError (Text × Text) := do
  let clientFirst ← okOr (.malformed "not utf-8") (fromUtf8 clientFirst)
  let (gs2, bare) ← splitGs2 clientFirst
  -- A client that asks for channel binding is refused, not downgraded.
  if ['p', '='].isPrefixOf gs2 then throw (.unsupported "channel binding")
  let clientNonce ← okOr (.malformed "missing client nonce") (field bare 'r')
  if clientNonce.isEmpty then throw (.malformed "empty client nonce")
  return (bare, clientNonce)

/-- The server-first-message. -/
def firstMessage (v : ScramVerifier) (nonce : Text) : Text :=
  attr 'r' nonce ++ ',' :: (attr 's' (P.base64.encode v.salt) ++ ',' ::
    attr 'i' (Text.ofU32 v.iterations))

def serverFirst (s : ScramServer) (clientFirst : Bytes) (made : Text) : ScramServer × Except ScramError Bytes :=
  match s.state with
  | .initial =>
      match readFirst clientFirst with
      | .error e => (s, .error e)
      | .ok (bare, clientNonce) =>
          let first := firstMessage P s.verifier (clientNonce ++ made)
          ({ s with state := .awaitingFinal bare first (clientNonce ++ made) }, .ok (Text.asBytes first))
  | _ => (s, .error .outOfOrder)

/-- The checks of `server_final`; what passes them is the message that is signed. -/
def readFinal (v : ScramVerifier) (clientFirstBare serverFirst nonce : Text) (clientFinal : Bytes) :
    Except ScramError Text := do
  let clientFinal ← okOr (.malformed "not utf-8") (fromUtf8 clientFinal)
  let received ← okOr (.malformed "missing nonce") (field clientFinal 'r')
  -- A mismatched nonce means someone spliced two exchanges together.
  if received ≠ nonce then throw .authenticationFailed
  let proof ← okOr (.malformed "missing proof") (field clientFinal 'p')
  let proof ← okOr (.malformed "proof encoding") (P.base64.decode proof)
  let proof ← okOr (.malformed "proof length") (Key.ofBytes proof)
  let (withoutProof, _) ← okOr (.malformed "missing proof separator") (Text.rsplitOnce [',', 'p', '='] clientFinal)
  let auth := authMessage clientFirstBare serverFirst withoutProof
  let candidate := P.digest (proof.xor (P.hmac v.storedKey.bytes (Text.asBytes auth))).bytes
  if !constantTimeEq candidate.bytes v.storedKey.bytes then throw .authenticationFailed
  return auth

def serverFinal (s : ScramServer) (clientFinal : Bytes) : ScramServer × Except ScramError Bytes :=
  match s.state with
  | .awaitingFinal clientFirstBare first nonce =>
      match readFinal P s.verifier clientFirstBare first nonce clientFinal with
      | .error e => (s, .error e)
      | .ok auth =>
          let signature := P.hmac s.verifier.serverKey.bytes (Text.asBytes auth)
          ({ s with state := .done }, .ok (Text.asBytes (attr 'v' (P.base64.encode signature.bytes))))
  | _ => (s, .error .outOfOrder)

end ScramServer

/-! ## The client -/

inductive ClientState where
  | initial
  | awaitingServerFirst (clientFirstBare clientNonce : Text)
  | awaitingServerFinal (serverSignature : Key)
  | done
deriving DecidableEq

/-- havuz authenticating to a backend. -/
structure ScramClient where
  password : Text
  state : ClientState := .initial

namespace ScramClient

def isDone (c : ScramClient) : Bool := c.state = .done

/-- The user name travelled in the startup packet, so `n=` is empty. -/
def firstBare (clientNonce : Text) : Text := attr 'n' [] ++ ',' :: attr 'r' clientNonce

def clientFirst (c : ScramClient) (made : Text) : ScramClient × Except ScramError Bytes :=
  match c.state with
  | .initial =>
      ({ c with state := .awaitingServerFirst (firstBare made) made },
        .ok (Text.asBytes ('n' :: ',' :: ',' :: firstBare made)))
  | _ => (c, .error .outOfOrder)

/-- What `client_final` takes from the server: its message, the whole nonce, the salt and the count. -/
def readFirst (clientNonce : Text) (serverFirst : Bytes) : Except ScramError (Text × Text × Bytes × UInt32) := do
  let serverFirst ← okOr (.malformed "not utf-8") (fromUtf8 serverFirst)
  let nonce ← okOr (.malformed "missing nonce") (field serverFirst 'r')
  -- The server must extend our nonce, not replace it.
  if !clientNonce.isPrefixOf nonce || (Text.asBytes nonce).length == (Text.asBytes clientNonce).length then
    throw (.malformed "server nonce does not extend the client nonce")
  let salt ← okOr (.malformed "missing salt") (field serverFirst 's')
  let salt ← okOr (.malformed "salt encoding") (P.base64.decode salt)
  let iterations ← okOr (.malformed "missing iteration count") (field serverFirst 'i')
  let iterations ← okOr (.malformed "iteration count") (Text.parseU32 iterations)
  if iterations = 0 then throw (.malformed "iteration count")
  return (serverFirst, nonce, salt, iterations)

/-- The client-final-message without its proof; "biws" is the header that was sent, encoded. -/
def withoutProof (nonce : Text) : Text := attr 'c' ['b', 'i', 'w', 's'] ++ ',' :: attr 'r' nonce

/-- `ClientKey XOR ClientSignature`. -/
def proof (salted : Key) (auth : Text) : Key :=
  (clientKey P salted).xor (P.hmac (P.digest (clientKey P salted).bytes).bytes (Text.asBytes auth))

def clientFinal (c : ScramClient) (serverFirst : Bytes) : ScramClient × Except ScramError Bytes :=
  match c.state with
  | .awaitingServerFirst clientFirstBare clientNonce =>
      match readFirst P clientNonce serverFirst with
      | .error e => (c, .error e)
      | .ok (serverFirst, nonce, salt, iterations) =>
          let salted := saltedPassword P c.password salt iterations
          let auth := authMessage clientFirstBare serverFirst (withoutProof nonce)
          let signature := P.hmac (serverKey P salted).bytes (Text.asBytes auth)
          ({ c with state := .awaitingServerFinal signature },
            .ok (Text.asBytes (withoutProof nonce ++ ',' ::
              attr 'p' (P.base64.encode (proof P salted auth).bytes))))
  | _ => (c, .error .outOfOrder)

/-- The checks of `verify_server_final`. -/
def readFinal (signature : Key) (serverFinal : Bytes) : Except ScramError Unit := do
  let serverFinal ← okOr (.malformed "not utf-8") (fromUtf8 serverFinal)
  if (field serverFinal 'e').isSome then throw .authenticationFailed
  let received ← okOr (.malformed "missing server signature") (field serverFinal 'v')
  let received ← okOr (.malformed "server signature encoding") (P.base64.decode received)
  if received.length ≠ 32 || !constantTimeEq received signature.bytes then throw .badServerSignature

def verifyServerFinal (c : ScramClient) (serverFinal : Bytes) : ScramClient × Except ScramError Unit :=
  match c.state with
  | .awaitingServerFinal signature =>
      match readFinal P signature serverFinal with
      | .error e => (c, .error e)
      | .ok () => ({ c with state := .done }, .ok ())
  | _ => (c, .error .outOfOrder)

end ScramClient

/-- Drive a complete exchange between a client and a server. -/
def handshake (client : ScramClient) (server : ScramServer) (clientNonce serverNonce : Text) :
    Except ScramError (ScramClient × ScramServer) := do
  let (client, message) := client.clientFirst clientNonce
  let (server, message) := server.serverFirst P (← message) serverNonce
  let (client, message) := client.clientFinal P (← message)
  let (server, message) := server.serverFinal P (← message)
  let (client, answer) := client.verifyServerFinal P (← message)
  answer
  return (client, server)

/-! ## What the messages hold -/

theorem field_last {key : Char} {value : Text} (h : ',' ∉ attr key value) (k : Char) :
    field (attr key value) k = if key = k then some value else none := by
  rw [field, Text.split_of_not_mem h]
  simp only [attr, List.findSome?_cons, List.findSome?_nil]
  split <;> simp_all

theorem field_append {key : Char} {value : Text} (h : ',' ∉ attr key value) (rest : Text) (k : Char) :
    field (attr key value ++ ',' :: rest) k = if key = k then some value else field rest k := by
  rw [field, Text.split_append h]
  simp only [attr, List.findSome?_cons]
  split
  case h_1 hsome => rw [← hsome]; split <;> simp_all
  case h_2 hnone => split <;> simp_all [field]

theorem not_mem_attr {key : Char} {value : Text} (hkey : key ≠ ',') (hvalue : ',' ∉ value) :
    ',' ∉ attr key value := by
  simp [attr, hkey.symm, hvalue]

theorem zipWith_xor_eq_zero {a b : Bytes} (h : a.length = b.length) :
    (∀ d ∈ List.zipWith (· ^^^ ·) a b, d = 0) ↔ a = b := by
  induction a generalizing b with
  | nil => cases b <;> simp_all
  | cons x a ih =>
      cases b with
      | nil => cases h
      | cons y b =>
          rw [List.zipWith_cons_cons, List.forall_mem_cons, ih (Nat.succ.inj h), UInt8.xor_eq_zero_iff,
            List.cons_eq_cons]

theorem foldl_or_eq_zero (bytes : Bytes) (d : UInt8) :
    bytes.foldl (· ||| ·) d = 0 ↔ d = 0 ∧ ∀ x ∈ bytes, x = 0 := by
  induction bytes generalizing d with
  | nil => simp
  | cons x bytes ih => rw [List.foldl_cons, ih, UInt8.or_eq_zero_iff, List.forall_mem_cons, and_assoc]

/-- The comparison that does not stop early compares. -/
theorem constantTimeEq_iff {a b : Bytes} : constantTimeEq a b = true ↔ a = b := by
  unfold constantTimeEq
  split
  case isTrue hne =>
    simp only [Bool.false_eq_true, false_iff]
    rintro rfl
    exact hne rfl
  case isFalse heq =>
    rw [beq_iff_eq, foldl_or_eq_zero, zipWith_xor_eq_zero (not_not.mp heq)]
    simp

end Havuz.Scram
