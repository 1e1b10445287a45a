import Havuz.Lib.Base64
import Havuz.Lib.SortedMap
import Havuz.Scram.Attributes
import Mathlib.Data.Prod.Lex

/-!
# The secret store

Reference: `havuz-secrets/src/store.rs` and `key.rs`. AES-256-GCM is a parameter, `Aead`, and what a seal draws at
random is handed in. A secret opens to what was put under the same reference and key (`get_put`), a rotation changes
nothing of that (`get_rotate`), and neither does the way through the state file (`fromJson_toJson`).
-/

namespace Havuz.Secrets

open Lib (SortedMap bind_eq_ok)
open Lib.Base64 (Engine)

/-! ## The cipher -/

/-- `[u8; NONCE_LEN]`. -/
structure Nonce where
  bytes : Bytes
  length_eq : bytes.length = 12
deriving DecidableEq

/-- `try_into` for the bytes of an entry. -/
def Nonce.ofBytes (bytes : Bytes) : Option Nonce :=
  if h : bytes.length = 12 then some ⟨bytes, h⟩ else none

@[simp] theorem Nonce.ofBytes_bytes (n : Nonce) : Nonce.ofBytes n.bytes = some n := by
  rw [Nonce.ofBytes, dif_pos n.length_eq]

/-- What `MasterKey` offers: a cipher that opens exactly what it has sealed, under the same key and with the same
associated data. -/
structure Aead (K : Type) where
  id : K → Text
  seal_ : K → Nonce → Bytes → Bytes → Option Bytes
  open_ : K → Nonce → Bytes → Bytes → Option Bytes
  open_eq_some : ∀ key nonce plaintext ciphertext aad,
    open_ key nonce ciphertext aad = some plaintext ↔ seal_ key nonce plaintext aad = some ciphertext

/-- A cipher to run: the key, the nonce and the associated data are put behind the plaintext. -/
def stamps : Aead Bytes where
  id key := key.map fun b => Char.ofNat b.toNat
  seal_ key nonce plaintext aad := some (plaintext ++ (key ++ nonce.bytes ++ aad))
  open_ key nonce ciphertext aad :=
    if (key ++ nonce.bytes ++ aad).isSuffixOf ciphertext then
      some (ciphertext.take (ciphertext.length - (key ++ nonce.bytes ++ aad).length))
    else none
  open_eq_some key nonce plaintext ciphertext aad := by
    rw [Option.ite_none_right_eq_some, List.isSuffixOf_iff_suffix, Option.some_inj, Option.some_inj]
    constructor
    · rintro ⟨⟨front, rfl⟩, htake⟩
      rw [← htake, List.length_append, Nat.add_sub_cancel, List.take_left]
    · rintro rfl
      exact ⟨⟨plaintext, rfl⟩, by rw [List.length_append, Nat.add_sub_cancel, List.take_left]⟩

/-! ## References -/

/-- Namespaced pointer to a secret: `kind/owner/field`. -/
@[ext] structure SecretRef where
  kind : Text
  owner : Text
  field : Text
deriving DecidableEq

namespace SecretRef

/-- The order of a reference is that of its three parts. -/
def parts (r : SecretRef) : Text ×ₗ Text ×ₗ Text := toLex (r.kind, toLex (r.owner, r.field))

theorem parts_injective : Function.Injective parts := by
  intro r r' h
  simp only [parts, EmbeddingLike.apply_eq_iff_eq, Prod.mk.injEq] at h
  obtain ⟨hkind, howner, hfield⟩ := h
  exact SecretRef.ext hkind howner hfield

instance : LinearOrder SecretRef := LinearOrder.lift' parts parts_injective

/-- Canonical string form, also the associated data of the cipher. -/
def asKey (r : SecretRef) : Text := r.kind ++ '/' :: (r.owner ++ '/' :: r.field)

end SecretRef

/-- `StoreError`, with the two ways a key can fail. -/
inductive StoreError where
  | notFound (ref : Text)
  | malformedRef (value : Text)
  | badNonce (ref : Text) (len : ℕ)
  | notUtf8 (ref : Text)
  | seal_
  | open_
deriving DecidableEq, Repr

namespace SecretRef

/-- `TryFrom<String>`: `splitn(3, '/')`, and no part may be empty. -/
def tryFrom (value : Text) : Except StoreError SecretRef :=
  match Text.splitOnce '/' value with
  | none => .error (.malformedRef value)
  | some (kind, rest) =>
      match Text.splitOnce '/' rest with
      | none => .error (.malformedRef value)
      | some (owner, field) =>
          if !kind.isEmpty && !owner.isEmpty && !field.isEmpty then .ok ⟨kind, owner, field⟩
          else .error (.malformedRef value)

/-- A reference that its key stands for. -/
structure Plain (r : SecretRef) : Prop where
  kind : '/' ∉ r.kind
  owner : '/' ∉ r.owner
  kind_ne : r.kind ≠ []
  owner_ne : r.owner ≠ []
  field_ne : r.field ≠ []

theorem tryFrom_asKey {r : SecretRef} (h : r.Plain) : tryFrom r.asKey = .ok r := by
  have hkind := Text.splitOnce_append h.kind (r.owner ++ '/' :: r.field)
  have howner := Text.splitOnce_append h.owner r.field
  simp [tryFrom, asKey, hkind, howner, h.kind_ne, h.owner_ne, h.field_ne]

theorem Plain.eq_of_asKey {r r' : SecretRef} (h : r.Plain) (h' : r'.Plain) (hkey : r.asKey = r'.asKey) : r = r' := by
  have hparsed := tryFrom_asKey h
  rw [hkey, tryFrom_asKey h'] at hparsed
  exact (Except.ok.inj hparsed).symm

end SecretRef

/-- `pool_backend_password`. -/
def poolBackendPassword (pool : Text) : SecretRef := ⟨"pool".toList, pool, "backend_password".toList⟩

/-- `user_verifier`. -/
def userVerifier (user : Text) : SecretRef := ⟨"user".toList, user, "scram_verifier".toList⟩

/-! ## The store -/

/-- An encrypted secret as it appears on disk. -/
structure SealedSecret where
  keyId : Text
  nonce : Bytes
  ciphertext : Bytes
deriving DecidableEq

structure SecretStore where
  entries : SortedMap SecretRef SealedSecret
deriving DecidableEq

namespace SecretStore

variable {K : Type} (C : Aead K)

def new : SecretStore := ⟨.empty⟩

def contains (s : SecretStore) (r : SecretRef) : Bool := (s.entries.get r).isSome

/-- Seal and store a secret, replacing any previous value. -/
def put (s : SecretStore) (key : K) (nonce : Nonce) (r : SecretRef) (plaintext : Text) :
    Except StoreError SecretStore := do
  let ciphertext ← okOr .seal_ (C.seal_ key nonce plaintext.asBytes r.asKey.asBytes)
  return ⟨s.entries.insert r ⟨C.id key, nonce.bytes, ciphertext⟩⟩

/-- `let _ = put(..)`: what cannot be sealed is passed over. -/
def putOrNot (s : SecretStore) (key : K) (nonce : Nonce) (r : SecretRef) (plaintext : Text) : SecretStore :=
  match s.put C key nonce r plaintext with
  | .ok s' => s'
  | .error _ => s

/-- Open an entry. -/
def reveal (key : K) (r : SecretRef) (sealed : SealedSecret) : Except StoreError Text := do
  let nonce ← okOr (.badNonce r.asKey sealed.nonce.length) (Nonce.ofBytes sealed.nonce)
  let plaintext ← okOr .open_ (C.open_ key nonce sealed.ciphertext r.asKey.asBytes)
  okOr (.notUtf8 r.asKey) (fromUtf8 plaintext)

/-- Open a secret. -/
def get (s : SecretStore) (key : K) (r : SecretRef) : Except StoreError Text := do
  let sealed ← okOr (.notFound r.asKey) (s.entries.get r)
  reveal C key r sealed

/-- Drop secrets whose owner is no longer referenced by the configuration. -/
def retainOwners (s : SecretStore) (kind : Text) (live : List Text) : SecretStore :=
  ⟨s.entries.filter fun e => e.1.kind ≠ kind || live.contains e.1.owner⟩

/-- One entry of a rotation; every seal draws a nonce. -/
def rotateEntry (s : SecretStore) (old new : K) (nonces : SecretRef → Nonce)
    (rotated : SortedMap SecretRef SealedSecret) (e : SecretRef × SealedSecret) :
    Except StoreError (SortedMap SecretRef SealedSecret) := do
  let plaintext ← s.get C old e.1
  let ciphertext ← okOr .seal_ (C.seal_ new (nonces e.1) plaintext.asBytes e.1.asKey.asBytes)
  return rotated.insert e.1 ⟨C.id new, (nonces e.1).bytes, ciphertext⟩

/-- Re-seal every entry under a new master key: the store, and the number of entries rotated. -/
def rotate (s : SecretStore) (old new : K) (nonces : SecretRef → Nonce) : Except StoreError (SecretStore × ℕ) := do
  let rotated ← s.entries.entries.foldlM (s.rotateEntry C old new nonces) .empty
  return (⟨rotated⟩, rotated.entries.length)

/-! ### What opens -/

variable {C} {key : K} {nonce : Nonce} {s s' : SecretStore} {r r' : SecretRef} {t : Text}

theorem put_eq_ok : s.put C key nonce r t = .ok s' ↔
    ∃ ciphertext, C.seal_ key nonce t.asBytes r.asKey.asBytes = some ciphertext ∧
      s' = ⟨s.entries.insert r ⟨C.id key, nonce.bytes, ciphertext⟩⟩ := by
  unfold put
  rw [bind_eq_ok]
  constructor
  · rintro ⟨ciphertext, hseal, hs⟩
    exact ⟨ciphertext, okOr_eq_ok.mp hseal, (Except.ok.inj hs).symm⟩
  · rintro ⟨ciphertext, hseal, rfl⟩
    exact ⟨ciphertext, okOr_eq_ok.mpr hseal, rfl⟩

/-- An entry that was sealed opens. -/
theorem reveal_sealed {ciphertext : Bytes} (h : C.seal_ key nonce t.asBytes r.asKey.asBytes = some ciphertext)
    (id : Text) : reveal C key r ⟨id, nonce.bytes, ciphertext⟩ = .ok t := by
  have hopen := (C.open_eq_some key nonce t.asBytes ciphertext r.asKey.asBytes).mpr h
  simp only [reveal, Nonce.ofBytes_bytes, hopen, fromUtf8_asBytes, okOr, bind, Except.bind]

theorem get_of_entry {sealed : SealedSecret} (h : s.entries.get r = some sealed) :
    s.get C key r = reveal C key r sealed := by
  rw [get, h]
  rfl

theorem get_of_none (h : s.entries.get r = none) : s.get C key r = .error (.notFound r.asKey) := by
  rw [get, h]
  rfl

/-- What is put opens, and nothing else is changed. -/
theorem get_put (h : s.put C key nonce r t = .ok s') :
    s'.get C key r' = if r' = r then .ok t else s.get C key r' := by
  obtain ⟨ciphertext, hseal, rfl⟩ := put_eq_ok.mp h
  split
  case isTrue heq =>
    subst heq
    rw [get_of_entry (by rw [SortedMap.get_insert, if_pos rfl])]
    exact reveal_sealed hseal _
  case isFalse hne =>
    unfold get
    rw [SortedMap.get_insert, if_neg hne]

/-- A secret that opens is there. -/
theorem contains_of_get (h : s.get C key r = .ok t) : s.contains r = true := by
  rw [contains, Option.isSome_iff_ne_none]
  intro hnone
  rw [get_of_none hnone] at h
  cases h

theorem entries_retainOwners {kind : Text} {live : List Text} {sealed : SealedSecret} :
    (s.retainOwners kind live).entries.get r = some sealed ↔
      s.entries.get r = some sealed ∧ (r.kind = kind → r.owner ∈ live) := by
  rw [retainOwners, SortedMap.get_filter_eq_some]
  apply and_congr_right
  intro _
  by_cases hkind : r.kind = kind <;> simp [hkind]

theorem get_retainOwners {kind : Text} {live : List Text} (h : (s.retainOwners kind live).get C key r = .ok t) :
    s.get C key r = .ok t := by
  match hr : (s.retainOwners kind live).entries.get r with
  | none =>
      rw [get_of_none hr] at h
      cases h
  | some sealed => rwa [get_of_entry (entries_retainOwners.mp hr).1, ← get_of_entry hr]

/-- Either the secret is put or the store is left as it is. -/
theorem putOrNot_cases (C : Aead K) (s : SecretStore) (key : K) (nonce : Nonce) (r : SecretRef) (t : Text) :
    s.put C key nonce r t = .ok (s.putOrNot C key nonce r t) ∨
      C.seal_ key nonce t.asBytes r.asKey.asBytes = none ∧ s.putOrNot C key nonce r t = s := by
  unfold putOrNot
  match hput : s.put C key nonce r t with
  | .ok s' => exact .inl rfl
  | .error _ =>
      right
      refine ⟨?_, rfl⟩
      rw [Option.eq_none_iff_forall_ne_some]
      intro ciphertext hseal
      rw [put_eq_ok.mpr ⟨ciphertext, hseal, rfl⟩] at hput
      cases hput

theorem contains_putOrNot (h : (s.putOrNot C key nonce r t).contains r' = true) : r' = r ∨ s.contains r' = true := by
  obtain hput | ⟨-, hsame⟩ := putOrNot_cases C s key nonce r t
  · obtain ⟨ciphertext, -, hs⟩ := put_eq_ok.mp hput
    rw [hs, contains, SortedMap.get_insert] at h
    split at h
    case isTrue heq => exact .inl heq
    case isFalse => exact .inr h
  · rw [hsame] at h
    exact .inr h

/-- What opens after it: what was put, if it could be sealed, and what opened before. -/
theorem get_putOrNot {t' : Text} (h : (s.putOrNot C key nonce r t).get C key r' = .ok t') :
    r' = r ∧ t' = t ∨ s.get C key r' = .ok t' ∧
      (r' = r → C.seal_ key nonce t.asBytes r.asKey.asBytes = none) := by
  obtain hput | ⟨hseal, hsame⟩ := putOrNot_cases C s key nonce r t
  · rw [get_put hput] at h
    split at h
    case isTrue heq => exact .inl ⟨heq, (Except.ok.inj h).symm⟩
    case isFalse hne => exact .inr ⟨h, fun heq => absurd heq hne⟩
  · rw [hsame] at h
    exact .inr ⟨h, fun _ => hseal⟩

/-! ### Rotation -/

/-- Every entry made so far opens to what the old one opens to. -/
def Resealed (C : Aead K) (s : SecretStore) (old new : K) (rotated : SortedMap SecretRef SealedSecret) : Prop :=
  ∀ r sealed, rotated.get r = some sealed → ∃ t, s.get C old r = .ok t ∧ reveal C new r sealed = .ok t

variable {old new : K} {nonces : SecretRef → Nonce} {n : ℕ}

theorem rotateEntry_eq_ok {rotated rotated' : SortedMap SecretRef SealedSecret} {e : SecretRef × SealedSecret} :
    s.rotateEntry C old new nonces rotated e = .ok rotated' ↔
      ∃ t ciphertext, s.get C old e.1 = .ok t ∧
        C.seal_ new (nonces e.1) t.asBytes e.1.asKey.asBytes = some ciphertext ∧
        rotated' = rotated.insert e.1 ⟨C.id new, (nonces e.1).bytes, ciphertext⟩ := by
  unfold rotateEntry
  rw [bind_eq_ok]
  constructor
  · rintro ⟨t, hget, hrest⟩
    obtain ⟨ciphertext, hseal, hins⟩ := bind_eq_ok.mp hrest
    exact ⟨t, ciphertext, hget, okOr_eq_ok.mp hseal, (Except.ok.inj hins).symm⟩
  · rintro ⟨t, ciphertext, hget, hseal, rfl⟩
    exact ⟨t, hget, bind_eq_ok.mpr ⟨ciphertext, okOr_eq_ok.mpr hseal, rfl⟩⟩

theorem resealed_rotateEntry {rotated rotated' : SortedMap SecretRef SealedSecret} {e : SecretRef × SealedSecret}
    (h : s.rotateEntry C old new nonces rotated e = .ok rotated') (hrotated : Resealed C s old new rotated) :
    Resealed C s old new rotated' := by
  obtain ⟨t, ciphertext, hget, hseal, rfl⟩ := rotateEntry_eq_ok.mp h
  intro r sealed hr
  rw [SortedMap.get_insert] at hr
  split at hr
  case isTrue heq =>
    subst heq
    cases hr
    exact ⟨t, hget, reveal_sealed hseal _⟩
  case isFalse => exact hrotated r sealed hr

theorem rotate_eq_ok (h : s.rotate C old new nonces = .ok (s', n)) :
    Resealed C s old new s'.entries ∧ (∀ e ∈ s.entries.entries, (s'.entries.get e.1).isSome = true) ∧
      n = s'.entries.entries.length := by
  obtain ⟨rotated, hfold, hpair⟩ := bind_eq_ok.mp h
  cases hpair
  refine ⟨?_, ?_, rfl⟩
  · apply Lib.foldlM_kept (fun _ _ _ hstep => resealed_rotateEntry hstep) hfold
    intro r sealed hr
    cases hr
  · apply Lib.foldlM_reached (Q := fun e m => (m.get e.1).isSome = true) _ _ hfold
    · intro m e m' hstep
      obtain ⟨t, ciphertext, -, -, rfl⟩ := rotateEntry_eq_ok.mp hstep
      rw [SortedMap.get_insert, if_pos rfl]
      rfl
    · intro m e m' hstep y hy
      obtain ⟨t, ciphertext, -, -, rfl⟩ := rotateEntry_eq_ok.mp hstep
      rw [SortedMap.get_insert]
      split
      · rfl
      · exact hy

/-- A rotation that succeeds leaves every secret what it was, under the new key. -/
theorem get_rotate (h : s.rotate C old new nonces = .ok (s', n)) (r : SecretRef) :
    s'.get C new r = s.get C old r := by
  obtain ⟨hresealed, hthere, -⟩ := rotate_eq_ok h
  match hr : s'.entries.get r with
  | some sealed =>
      obtain ⟨t, hold, hnew⟩ := hresealed r sealed hr
      rw [hold, get_of_entry hr, hnew]
  | none =>
      have hnone : s.entries.get r = none := by
        match hs : s.entries.get r with
        | none => rfl
        | some sealed =>
            have hsome := hthere (r, sealed) (SortedMap.mem_of_get hs)
            rw [hr] at hsome
            cases hsome
      rw [get_of_none hr, get_of_none hnone]

end SecretStore

/-! ## The state file -/

/-- A JSON value, as far as the store is made of it. -/
inductive Json where
  | string (t : Text)
  | object (members : List (Text × Json))

namespace Json

/-- A string member; a missing one and a repeated one are errors. -/
def field (name : Text) (members : List (Text × Json)) : Option Text :=
  match members.filter fun m => m.1 = name with
  | [(_, .string t)] => some t
  | _ => none

end Json

variable (engine : Engine)

/-- `Serialize` for an entry; the bytes go through `b64`. -/
def SealedSecret.toJson (sealed : SealedSecret) : Json :=
  .object [("key_id".toList, .string sealed.keyId), ("nonce".toList, .string (engine.encode sealed.nonce)),
    ("ciphertext".toList, .string (engine.encode sealed.ciphertext))]

def SealedSecret.fromJson : Json → Option SealedSecret
  | .string _ => none
  | .object members => do
      let keyId ← Json.field "key_id".toList members
      let nonce ← (Json.field "nonce".toList members).bind engine.decode
      let ciphertext ← (Json.field "ciphertext".toList members).bind engine.decode
      return { keyId, nonce, ciphertext }

@[simp] theorem SealedSecret.fromJson_toJson (sealed : SealedSecret) : fromJson engine (sealed.toJson engine) = some sealed := by
  simp [fromJson, toJson, Json.field, engine.decode_encode]

namespace SecretStore

/-- `#[serde(transparent)]`: the members are the entries, under their keys. -/
def toJson (s : SecretStore) : Json :=
  .object (s.entries.entries.map fun e => (e.1.asKey, e.2.toJson engine))

/-- One member of the object. -/
def readMember (m : SortedMap SecretRef SealedSecret) (member : Text × Json) :
    Option (SortedMap SecretRef SealedSecret) := do
  let r ← (SecretRef.tryFrom member.1).toOption
  let sealed ← SealedSecret.fromJson engine member.2
  return m.insert r sealed

def fromJson : Json → Option SecretStore
  | .string _ => none
  | .object members => (members.foldlM (readMember engine) .empty).map SecretStore.mk

/-- Every reference of the store is one its key stands for. -/
def Plain (s : SecretStore) : Prop := ∀ e ∈ s.entries.entries, e.1.Plain

theorem readMember_entry {e : SecretRef × SealedSecret} (h : e.1.Plain) (m : SortedMap SecretRef SealedSecret) :
    readMember engine m (e.1.asKey, e.2.toJson engine) = some (m.insert e.1 e.2) := by
  simp [readMember, SecretRef.tryFrom_asKey h, Except.toOption]

/-- What is written is read back. -/
theorem fromJson_toJson {s : SecretStore} (h : s.Plain) : fromJson engine (s.toJson engine) = some s := by
  have hfold : ∀ (l : List (SecretRef × SealedSecret)) (m : SortedMap SecretRef SealedSecret), (∀ e ∈ l, e.1.Plain) →
      (l.map fun e => (e.1.asKey, e.2.toJson engine)).foldlM (readMember engine) m =
        some (l.foldl (fun m e => m.insert e.1 e.2) m) := by
    intro l
    induction l with
    | nil => exact fun m _ => rfl
    | cons e l ih =>
        intro m hplain
        rw [List.map_cons, List.foldlM_cons, readMember_entry engine (hplain e List.mem_cons_self), Option.bind_eq_bind,
          Option.bind_some, ih _ fun e' he' => hplain e' (List.mem_cons_of_mem e he'), List.foldl_cons]
  rw [toJson, fromJson, hfold _ _ h, SortedMap.foldl_insert]
  rfl

end SecretStore

end Havuz.Secrets
