import Havuz.Lib.Base64
import Havuz.Scram.Attributes

/-!
# What havuz stores for a client user

Reference: `havuz-secrets/src/verifier.rs`. HMAC, the digest, SASLprep and base64 are parameters. A verifier
that was written in PostgreSQL's format parses back (`ScramVerifier.parse_encode`).
-/

namespace Havuz.Scram

open Lib (Base64.Engine)

/-- `[u8; KEY_LEN]`. -/
@[ext] structure Key where
  bytes : Bytes
  length_eq : bytes.length = 32
deriving DecidableEq

/-- `try_into` for a vector of bytes. -/
def Key.ofBytes (bytes : Bytes) : Option Key :=
  if h : bytes.length = 32 then some ⟨bytes, h⟩ else none

@[simp] theorem Key.ofBytes_bytes (k : Key) : Key.ofBytes k.bytes = some k := by
  rw [Key.ofBytes, dif_pos k.length_eq]

/-- Byte by byte. -/
def Key.xor (a b : Key) : Key := ⟨List.zipWith (· ^^^ ·) a.bytes b.bytes, by simp [a.length_eq, b.length_eq]⟩

theorem zipWith_xor_cancel {xs ys : Bytes} (h : xs.length = ys.length) :
    List.zipWith (· ^^^ ·) (List.zipWith (· ^^^ ·) xs ys) ys = xs := by
  induction xs generalizing ys with
  | nil => rfl
  | cons x xs ih =>
      cases ys with
      | nil => cases h
      | cons y ys =>
          rw [List.zipWith_cons_cons, List.zipWith_cons_cons, ih (Nat.succ.inj h), UInt8.xor_assoc, UInt8.xor_self,
            UInt8.xor_zero]

@[simp] theorem Key.xor_xor_cancel (a b : Key) : (a.xor b).xor b = a := by
  apply Key.ext
  exact zipWith_xor_cancel (a.length_eq.trans b.length_eq.symm)

/-- What the exchange is built from. -/
structure Primitives where
  /-- HMAC-SHA-256. -/
  hmac : Bytes → Bytes → Key
  /-- SHA-256. -/
  digest : Bytes → Key
  /-- None for a password that cannot be prepared. -/
  saslprep : Text → Option Text
  base64 : Base64.Engine

/-- Primitives to run: sums in place of hashes. -/
def sums : Primitives where
  hmac key data := ⟨List.replicate 32 ((key ++ data).foldl (· + ·) 0), by simp⟩
  digest data := ⟨List.replicate 32 (data.foldl (· + ·) 1), by simp⟩
  saslprep _ := none
  base64 := Lib.Base64.standard

structure VerifierError where
  what : String
deriving DecidableEq, Repr

/-- A salted, iterated credential. Never a password. -/
structure ScramVerifier where
  iterations : UInt32
  salt : Bytes
  storedKey : Key
  serverKey : Key
deriving DecidableEq

variable (P : Primitives)

/-- SASLprep, falling back to the raw value. -/
def normalize (password : Text) : Text := (P.saslprep password).getD password

/-- The rounds of `hi` after the first one. -/
def hiRounds (password : Bytes) : ℕ → Key → Key → Key
  | 0, _, salted => salted
  | n + 1, u, salted => hiRounds password n (P.hmac password u.bytes) (salted.xor (P.hmac password u.bytes))

/-- `Hi()` from RFC 5802. -/
def hi (password salt : Bytes) (iterations : UInt32) : Key :=
  hiRounds P password (iterations.toNat - 1) (P.hmac password (salt ++ [0, 0, 0, 1]))
    (P.hmac password (salt ++ [0, 0, 0, 1]))

/-- `SaltedPassword` from RFC 5802. -/
def saltedPassword (password : Text) (salt : Bytes) (iterations : UInt32) : Key :=
  hi P (normalize P password).asBytes salt iterations

/-- `ClientKey` from RFC 5802. -/
def clientKey (salted : Key) : Key := P.hmac salted.bytes (Text.asBytes "Client Key".toList)

/-- `ServerKey` from RFC 5802. -/
def serverKey (salted : Key) : Key := P.hmac salted.bytes (Text.asBytes "Server Key".toList)

namespace ScramVerifier

def fromPasswordWith (password : Text) (salt : Bytes) (iterations : UInt32) : ScramVerifier where
  iterations := iterations
  salt := salt
  storedKey := P.digest (clientKey P (saltedPassword P password salt iterations)).bytes
  serverKey := Scram.serverKey P (saltedPassword P password salt iterations)

/-- `from_password`, with the salt it draws. -/
def fromPassword (password : Text) (salt : Bytes) : ScramVerifier := fromPasswordWith P password salt 4096

/-- PostgreSQL's `rolpassword` format. -/
def encode (v : ScramVerifier) : Text :=
  "SCRAM-SHA-256$".toList ++ (Text.ofU32 v.iterations ++ ':' :: P.base64.encode v.salt) ++ '$' ::
    (P.base64.encode v.storedKey.bytes ++ ':' :: P.base64.encode v.serverKey.bytes)

def parse (input : Text) : Except VerifierError ScramVerifier := do
  let rest ← okOr ⟨"wrong mechanism prefix"⟩ (Text.stripPrefix "SCRAM-SHA-256$".toList input)
  let (params, keys) ← okOr ⟨"missing key section"⟩ (Text.splitOnce '$' rest)
  let (iterations, salt) ← okOr ⟨"missing salt"⟩ (Text.splitOnce ':' params)
  let (stored, server) ← okOr ⟨"missing server key"⟩ (Text.splitOnce ':' keys)
  let iterations ← okOr ⟨"iteration count"⟩ (Text.parseU32 iterations)
  if iterations = 0 then throw ⟨"iteration count"⟩
  let salt ← okOr ⟨"salt encoding"⟩ (P.base64.decode salt)
  let stored ← okOr ⟨"stored key encoding"⟩ (P.base64.decode stored)
  let storedKey ← okOr ⟨"stored key length"⟩ (Key.ofBytes stored)
  let server ← okOr ⟨"server key encoding"⟩ (P.base64.decode server)
  let serverKey ← okOr ⟨"server key length"⟩ (Key.ofBytes server)
  return { iterations, salt, storedKey, serverKey }

/-- A stored verifier parses back to itself. -/
theorem parse_encode (v : ScramVerifier) (h : v.iterations ≠ 0) : parse P (v.encode P) = .ok v := by
  have hstarts : Text.stripPrefix "SCRAM-SHA-256$".toList (v.encode P) =
      some ((Text.ofU32 v.iterations ++ ':' :: P.base64.encode v.salt) ++ '$' ::
        (P.base64.encode v.storedKey.bytes ++ ':' :: P.base64.encode v.serverKey.bytes)) := by
    unfold encode
    rw [List.append_assoc]
    exact Text.stripPrefix_append ..
  have hdollar : '$' ∉ Text.ofU32 v.iterations ++ ':' :: P.base64.encode v.salt := by
    rw [List.mem_append, List.mem_cons]
    rintro (hmem | hmem | hmem)
    · exact Text.not_mem_ofU32 (by decide) _ hmem
    · exact absurd hmem (by decide)
    · exact P.base64.not_mem_encode (by decide) _ hmem
  have hsplit := Text.splitOnce_append hdollar
    (P.base64.encode v.storedKey.bytes ++ ':' :: P.base64.encode v.serverKey.bytes)
  have hparams := Text.splitOnce_append (Text.not_mem_ofU32 (by decide : isAsciiDigit ':' = false) v.iterations)
    (P.base64.encode v.salt)
  have hkeys := Text.splitOnce_append
    (P.base64.not_mem_encode (by decide : Lib.Base64.isSign ':' = false) v.storedKey.bytes)
    (P.base64.encode v.serverKey.bytes)
  simp only [parse, hstarts, hsplit, hparams, hkeys, Text.parseU32_ofU32, P.base64.decode_encode,
    Key.ofBytes_bytes, okOr, if_neg h, bind, Except.bind, pure, Except.pure]

end ScramVerifier

end Havuz.Scram
