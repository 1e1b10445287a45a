import Havuz.Admission.Model
import Havuz.Families.Requests
import Havuz.Lib.Run
import Havuz.Scram.Verifier
import Havuz.Secrets.Store

/-!
# Secrets and their owners

Reference: `create_pool`, `update_pool`, `delete_pool`, `set_disabled`, `create_user`, `update_user` and `delete_user`
in `havuz-admin/src/routes.rs`, each as the closure it passes to `StateStore::update`. What a handler only refuses
before that is left out.

`delete_pool` also removes the users whose last grant it was, and sweeps only the secrets of pools. So the secrets
follow their owners as long as no such user has a verifier (`secrets_follow_owners`).
-/

namespace Havuz.Secrets

open Lib (SortedMap run Along lastOf)

variable {K : Type}

/-- The state as it is published and written, with its secrets sealed. -/
structure Document where
  version : ℕ
  pools : SortedMap Text PoolConfig
  users : SortedMap Text UserConfig
  secrets : SecretStore
deriving DecidableEq

/-- `State::default`. -/
def Document.default : Document := ⟨stateVersion, .empty, .empty, .new⟩

section View

variable (C : Aead K) (key : K)

/-- One more entry, if it opens. -/
def revealInto (opened : SortedMap Text Text) (e : SecretRef × SealedSecret) : SortedMap Text Text :=
  match SecretStore.reveal C key e.1 e.2 with
  | .ok t => opened.insert e.1.asKey t
  | .error _ => opened

/-- What the secrets open to. -/
def SecretStore.opened (s : SecretStore) : SortedMap Text Text :=
  s.entries.entries.foldl (revealInto C key) .empty

/-- The state, as a session reads it. -/
def Document.state (d : Document) : State where
  version := d.version
  pools := d.pools
  users := d.users
  secrets := d.secrets.opened C key

end View

/-! ## The requests -/

/-- The body of a `PATCH` of a user. -/
structure UserPatch where
  pools : Option (List Text) := none
  maxClientConnections : Option ℕ := none
  ownBackendRole : Option Bool := none
  readOnly : Option Bool := none
  disabled : Option Bool := none
  password : Option Text := none
deriving DecidableEq, Repr

def UserPatch.apply (p : UserPatch) (user : UserConfig) : UserConfig where
  pools := p.pools.getD user.pools
  maxClientConnections := p.maxClientConnections.getD user.maxClientConnections
  ownBackendRole := p.ownBackendRole.getD user.ownBackendRole
  readOnly := p.readOnly.getD user.readOnly
  disabled := p.disabled.getD user.disabled

/-- An admin request, with the salt and the nonce it draws. -/
inductive Op where
  | createPool (name : Text) (config : PoolConfig) (password : Option Text) (nonce : Nonce)
  | updatePool (name : Text) (body : Families.Patch)
  | setDisabled (name : Text) (disabled : Bool)
  | deletePool (name : Text)
  | createUser (name : Text) (config : UserConfig) (password : Text) (salt : Bytes) (nonce : Nonce)
  | updateUser (name : Text) (body : UserPatch) (salt : Bytes) (nonce : Nonce)
  | deleteUser (name : Text)

section Requests

variable (C : Aead K) (P : Scram.Primitives) (key : K)

/-- What is stored for a password. -/
def verifierText (password : Text) (salt : Bytes) : Text :=
  (Scram.ScramVerifier.fromPassword P password salt).encode P

/-- The closure of a request, and what it returns: whether there was something to do. -/
def Op.apply (d : Document) : Op → Document × Bool
  | .createPool name config password nonce =>
      match d.pools.get name with
      | some _ => (d, false)
      | none =>
          ({ d with
              pools := d.pools.insert name config
              secrets := match password with
                | some password => d.secrets.putOrNot C key nonce (poolBackendPassword name) password
                | none => d.secrets }, true)
  | .updatePool name body =>
      match d.pools.get name with
      | some pool => ({ d with pools := d.pools.insert name (body.apply pool) }, true)
      | none => (d, false)
  | .setDisabled name disabled =>
      match d.pools.get name with
      | some pool => ({ d with pools := d.pools.insert name { pool with disabled } }, true)
      | none => (d, false)
  | .deletePool name =>
      ({ d with
          pools := d.pools.erase name
          users := (d.users.mapValues fun user => { user with pools := user.pools.filter (· ≠ name) }).filter
            fun e => !e.2.pools.isEmpty
          secrets := d.secrets.retainOwners "pool".toList (d.pools.erase name).keys }, (d.pools.get name).isSome)
  | .createUser name config password salt nonce =>
      match d.users.get name with
      | some _ => (d, false)
      | none =>
          ({ d with
              users := d.users.insert name config
              secrets := d.secrets.putOrNot C key nonce (userVerifier name) (verifierText P password salt) }, true)
  | .updateUser name body salt nonce =>
      match d.users.get name with
      | none => (d, false)
      | some user =>
          ({ d with
              users := d.users.insert name (body.apply user)
              secrets := match body.password with
                | some password =>
                    d.secrets.putOrNot C key nonce (userVerifier name) (verifierText P password salt)
                | none => d.secrets }, true)
  | .deleteUser name =>
      ({ d with
          users := d.users.erase name
          secrets := d.secrets.retainOwners "user".toList (d.users.erase name).keys }, (d.users.get name).isSome)

/-- `StateStore::update`: what the checks refuse is not published. -/
def update (d : Document) (op : Op) : Document × Bool :=
  let next := op.apply C P key d
  if (next.1.state C key).validate = .ok () then next else (d, false)

def step (d : Document) (op : Op) : Document := (update C P key d op).1

/-- The verifier a request has for a user. -/
def Op.verifier (user : Text) : Op → Option Scram.ScramVerifier
  | .createUser name _ password salt _ => if name = user then some (.fromPassword P password salt) else none
  | .updateUser name body salt _ =>
      if name = user then body.password.map fun password => .fromPassword P password salt else none
  | _ => none

/-- The verifier a request gives to a user, if it is granted. -/
def gives (user : Text) (d : Document) (op : Op) : Option Scram.ScramVerifier :=
  if (update C P key d op).2 then op.verifier P user else none

/-- The verifier of the latest create or password update of a user, in a run from the empty state. -/
def latest (user : Text) (ops : List Op) : Option Scram.ScramVerifier :=
  lastOf (step C P key) (gives C P key user) Document.default ops

/-- A request that removes no verifier's user along with a pool, and seals the verifier it replaces another one
with. -/
def Tidy (d : Document) : Op → Prop
  | .deletePool name =>
      ∀ e ∈ d.users.entries, (∀ pool ∈ e.2.pools, pool = name) → d.secrets.contains (userVerifier e.1) = false
  | .updateUser name body salt nonce =>
      d.secrets.contains (userVerifier name) = true → ∀ password ∈ body.password,
        (C.seal_ key nonce (verifierText P password salt).asBytes (userVerifier name).asKey.asBytes).isSome = true
  | _ => True

instance (d : Document) (op : Op) : Decidable (Tidy C P key d op) := by
  unfold Tidy
  split <;> infer_instance

end Requests

/-! ## Who owns what -/

/-- The pool or the user a reference is about exists. -/
def Owns (pools : SortedMap Text PoolConfig) (users : SortedMap Text UserConfig) (r : SecretRef) : Prop :=
  r = poolBackendPassword r.owner ∧ (pools.get r.owner).isSome = true ∨
    r = userVerifier r.owner ∧ (users.get r.owner).isSome = true

/-- Every secret has an owner. -/
def Owned (pools : SortedMap Text PoolConfig) (users : SortedMap Text UserConfig) (s : SecretStore) : Prop :=
  ∀ r, s.contains r = true → Owns pools users r

def Document.Owned (d : Document) : Prop := Secrets.Owned d.pools d.users d.secrets

section Owned

variable {C : Aead K} {key : K} {nonce : Nonce} {pools pools' : SortedMap Text PoolConfig}
  {users users' : SortedMap Text UserConfig} {s : SecretStore} {r : SecretRef} {t : Text}

/-- No owner goes. -/
theorem Owned.grow (h : Owned pools users s)
    (hpools : ∀ n, (pools.get n).isSome = true → (pools'.get n).isSome = true)
    (husers : ∀ n, (users.get n).isSome = true → (users'.get n).isSome = true) : Owned pools' users' s := by
  intro r hr
  obtain ⟨hkind, howner⟩ | ⟨hkind, howner⟩ := h r hr
  · exact .inl ⟨hkind, hpools _ howner⟩
  · exact .inr ⟨hkind, husers _ howner⟩

theorem Owned.putOrNot (h : Owned pools users s) (hr : Owns pools users r) :
    Owned pools users (s.putOrNot C key nonce r t) := by
  intro r' hr'
  obtain rfl | hold := SecretStore.contains_putOrNot hr'
  · exact hr
  · exact h r' hold

/-- The owners of one kind go and their secrets with them; those of the other kind stay. -/
theorem Owned.retain_pools (h : Owned pools users s)
    (husers : ∀ n, s.contains (userVerifier n) = true → (users.get n).isSome = true → (users'.get n).isSome = true) :
    Owned pools' users' (s.retainOwners "pool".toList pools'.keys) := by
  intro r hr
  obtain ⟨sealed, hsealed⟩ := Option.isSome_iff_exists.mp hr
  obtain ⟨hold, hlive⟩ := SecretStore.entries_retainOwners.mp hsealed
  have hcontains : s.contains r = true := by rw [SecretStore.contains, hold]; rfl
  obtain ⟨hkind, -⟩ | ⟨hkind, howner⟩ := h r hcontains
  · have hmem := hlive (by rw [hkind]; rfl)
    exact .inl ⟨hkind, SortedMap.mem_keys.mp hmem⟩
  · exact .inr ⟨hkind, husers _ (hkind ▸ hcontains) howner⟩

theorem Owned.retain_users (h : Owned pools users s) :
    Owned pools users' (s.retainOwners "user".toList users'.keys) := by
  intro r hr
  obtain ⟨sealed, hsealed⟩ := Option.isSome_iff_exists.mp hr
  obtain ⟨hold, hlive⟩ := SecretStore.entries_retainOwners.mp hsealed
  have hcontains : s.contains r = true := by rw [SecretStore.contains, hold]; rfl
  obtain ⟨hkind, howner⟩ | ⟨hkind, -⟩ := h r hcontains
  · exact .inl ⟨hkind, howner⟩
  · have hmem := hlive (by rw [hkind]; rfl)
    exact .inr ⟨hkind, SortedMap.mem_keys.mp hmem⟩

end Owned

/-! ## Which verifiers are stored -/

section Verified

variable (C : Aead K) (P : Scram.Primitives) (key : K)

/-- A verifier that opens is the one given to its user. -/
def Verified (given : Text → Option Scram.ScramVerifier) (s : SecretStore) : Prop :=
  ∀ user t, s.get C key (userVerifier user) = .ok t →
    ∃ v, given user = some v ∧ v.iterations ≠ 0 ∧ t = v.encode P

variable {C P key} {nonce : Nonce} {given : Text → Option Scram.ScramVerifier} {s : SecretStore} {name : Text}

theorem userVerifier_ne_pool (user pool : Text) : userVerifier user ≠ poolBackendPassword pool := by
  intro h
  have hkind : "user".toList = "pool".toList := congrArg SecretRef.kind h
  exact absurd hkind (by decide)

theorem fromPassword_iterations (password : Text) (salt : Bytes) :
    (Scram.ScramVerifier.fromPassword P password salt).iterations ≠ 0 := by
  show (4096 : UInt32) ≠ 0
  decide

theorem Verified.put_pool (h : Verified C P key given s) (password : Text) :
    Verified C P key given (s.putOrNot C key nonce (poolBackendPassword name) password) := by
  intro user t ht
  obtain ⟨href, -⟩ | ⟨hold, -⟩ := SecretStore.get_putOrNot ht
  · exact absurd href (userVerifier_ne_pool user _)
  · exact h user t hold

/-- The user's verifier is replaced; where it cannot be sealed there was none. -/
theorem Verified.put_user (h : Verified C P key given s) {password : Text} (salt : Bytes)
    (hseals : s.contains (userVerifier name) = true →
      (C.seal_ key nonce (verifierText P password salt).asBytes (userVerifier name).asKey.asBytes).isSome = true) :
    Verified C P key
      (fun user => (if name = user then some (.fromPassword P password salt) else none).or (given user))
      (s.putOrNot C key nonce (userVerifier name) (verifierText P password salt)) := by
  intro user t ht
  obtain ⟨href, rfl⟩ | ⟨hold, hfails⟩ := SecretStore.get_putOrNot ht
  · have huser : user = name := congrArg SecretRef.owner href
    refine ⟨.fromPassword P password salt, ?_, fromPassword_iterations password salt, rfl⟩
    simp only [if_pos huser.symm, Option.some_or]
  · have hne : name ≠ user := by
      rintro rfl
      have hsome := hseals (SecretStore.contains_of_get hold)
      rw [hfails rfl] at hsome
      cases hsome
    simp only [if_neg hne, Option.none_or]
    exact h user t hold

theorem Verified.retain (h : Verified C P key given s) (kind : Text) (live : List Text) :
    Verified C P key given (s.retainOwners kind live) := by
  intro user t ht
  exact h user t (SecretStore.get_retainOwners ht)

end Verified

/-! ## What a request keeps -/

section Keeps

variable (C : Aead K) (P : Scram.Primitives) (key : K)

/-- What holds of every state reached. -/
structure Keeps (given : Text → Option Scram.ScramVerifier) (d : Document) : Prop where
  valid : (d.state C key).validate = .ok ()
  owned : d.Owned
  verified : Verified C P key given d.secrets

variable {C P key} {given : Text → Option Scram.ScramVerifier} {d : Document} {op : Op}

theorem isSome_insert {V : Type} (m : SortedMap Text V) (k : Text) (v : V) :
    ((m.insert k v).get k).isSome = true := by
  rw [SortedMap.get_insert, if_pos rfl]
  rfl

theorem isSome_insert_of {V : Type} {m : SortedMap Text V} (k : Text) (v : V) (n : Text)
    (h : (m.get n).isSome = true) : ((m.insert k v).get n).isSome = true := by
  rw [SortedMap.get_insert]
  split
  · rfl
  · exact h

/-- A user is removed along with a pool when it has no other grant. -/
theorem isSome_retained {users : SortedMap Text UserConfig} {name n : Text} (h : (users.get n).isSome = true)
    (hother : ∀ user, users.get n = some user → ∃ pool ∈ user.pools, pool ≠ name) :
    (((users.mapValues fun user => { user with pools := user.pools.filter (· ≠ name) }).filter
      fun e => !e.2.pools.isEmpty).get n).isSome = true := by
  obtain ⟨user, huser⟩ := Option.isSome_iff_exists.mp h
  obtain ⟨pool, hpool, hne⟩ := hother user huser
  have hkept : pool ∈ user.pools.filter (· ≠ name) := by simp [hpool, hne]
  rw [Option.isSome_iff_exists]
  refine ⟨{ user with pools := user.pools.filter (· ≠ name) }, ?_⟩
  rw [SortedMap.get_filter_eq_some, SortedMap.get_mapValues, huser]
  refine ⟨rfl, ?_⟩
  rw [Bool.not_eq_true', List.isEmpty_eq_false_iff]
  exact List.ne_nil_of_mem hkept

/-- Every closure keeps the secrets owned. -/
theorem Op.apply_owned (h : d.Owned) (htidy : Tidy C P key d op) : (op.apply C P key d).1.Owned := by
  have husers : ∀ n, (d.users.get n).isSome = true → (d.users.get n).isSome = true := fun _ hn => hn
  have hpools : ∀ n, (d.pools.get n).isSome = true → (d.pools.get n).isSome = true := fun _ hn => hn
  cases op with
  | createPool name config password nonce =>
      simp only [Op.apply]
      split
      case h_1 => exact h
      case h_2 =>
        have hgrown := h.grow (isSome_insert_of name config) husers
        split
        · exact hgrown.putOrNot (.inl ⟨rfl, isSome_insert _ _ _⟩)
        · exact hgrown
  | updatePool name body =>
      simp only [Op.apply]
      split
      · exact h.grow (isSome_insert_of name _) husers
      · exact h
  | setDisabled name disabled =>
      simp only [Op.apply]
      split
      · exact h.grow (isSome_insert_of name _) husers
      · exact h
  | deletePool name =>
      apply h.retain_pools
      intro n hstored hn
      apply isSome_retained hn
      intro user huser
      -- its grants are not all of the pool that goes, since its verifier stays
      by_contra hall
      push Not at hall
      have hgone := htidy (n, user) (SortedMap.mem_of_get huser) hall
      rw [hstored] at hgone
      cases hgone
  | createUser name config password salt nonce =>
      simp only [Op.apply]
      split
      case h_1 => exact h
      case h_2 =>
        have hgrown := h.grow hpools (isSome_insert_of name config)
        exact hgrown.putOrNot (.inr ⟨rfl, isSome_insert _ _ _⟩)
  | updateUser name body salt nonce =>
      simp only [Op.apply]
      split
      case h_1 => exact h
      case h_2 user _ =>
        have hgrown := h.grow hpools (isSome_insert_of name (body.apply user))
        split
        · exact hgrown.putOrNot (.inr ⟨rfl, isSome_insert _ _ _⟩)
        · exact hgrown
  | deleteUser name => exact h.retain_users

/-- What a closure has made is in line with the verifier the request gives if there was something to do. -/
def Granted (C : Aead K) (P : Scram.Primitives) (key : K) (given : Text → Option Scram.ScramVerifier) (op : Op)
    (made : Document × Bool) : Prop :=
  Verified C P key (fun user => (if made.2 then op.verifier P user else none).or (given user)) made.1.secrets

theorem granted_nothing (op : Op) (h : Verified C P key given d.secrets) : Granted C P key given op (d, false) := by
  intro user t ht
  obtain ⟨v, hgiven, hv⟩ := h user t ht
  exact ⟨v, hgiven, hv⟩

/-- A request that gives nobody a verifier. -/
theorem granted_of_none {made : Document × Bool} (hnone : ∀ user, op.verifier P user = none)
    (h : Verified C P key given made.1.secrets) : Granted C P key given op made := by
  intro user t ht
  obtain ⟨v, hgiven, hv⟩ := h user t ht
  refine ⟨v, ?_, hv⟩
  simp only [hnone, ite_self, Option.none_or, hgiven]

/-- Every closure stores no other verifier than the one it gives. -/
theorem Op.apply_granted (howned : d.Owned) (h : Verified C P key given d.secrets) (htidy : Tidy C P key d op) :
    Granted C P key given op (op.apply C P key d) := by
  cases op with
  | createPool name config password nonce =>
      apply granted_of_none fun _ => rfl
      simp only [Op.apply]
      split
      case h_1 => exact h
      case h_2 =>
        match password with
        | none => exact h
        | some password => exact h.put_pool password
  | updatePool name body =>
      apply granted_of_none fun _ => rfl
      simp only [Op.apply]
      split <;> exact h
  | setDisabled name disabled =>
      apply granted_of_none fun _ => rfl
      simp only [Op.apply]
      split <;> exact h
  | deletePool name =>
      apply granted_of_none fun _ => rfl
      exact h.retain _ _
  | createUser name config password salt nonce =>
      simp only [Op.apply]
      split
      case h_1 => exact granted_nothing _ h
      case h_2 hnone =>
        apply h.put_user
        -- a name without a record has no verifier
        intro hstored
        obtain ⟨hkind, -⟩ | ⟨-, howner⟩ := howned _ hstored
        · exact absurd hkind (userVerifier_ne_pool name _)
        · have hsome : (d.users.get name).isSome = true := howner
          rw [hnone] at hsome
          cases hsome
  | updateUser name body salt nonce =>
      simp only [Op.apply]
      split
      case h_1 => exact granted_nothing _ h
      case h_2 user _ =>
        match hpassword : body.password with
        | none =>
            apply granted_of_none _ h
            intro user
            simp only [Op.verifier, hpassword, Option.map_none, ite_self]
        | some password =>
            have hput := h.put_user salt fun hstored => htidy hstored password hpassword
            unfold Granted
            simp only [Op.verifier, hpassword, Option.map_some, if_true]
            exact hput
  | deleteUser name =>
      apply granted_of_none fun _ => rfl
      exact h.retain _ _

theorem update_cases (C : Aead K) (P : Scram.Primitives) (key : K) (d : Document) (op : Op) :
    update C P key d op = op.apply C P key d ∧ ((op.apply C P key d).1.state C key).validate = .ok () ∨
      update C P key d op = (d, false) := by
  unfold update
  simp only
  split
  case isTrue hvalid => exact .inl ⟨rfl, hvalid⟩
  case isFalse => exact .inr rfl

theorem step_keeps (h : Keeps C P key given d) (htidy : Tidy C P key d op) :
    Keeps C P key (fun user => (gives C P key user d op).or (given user)) (step C P key d op) := by
  unfold step gives
  obtain ⟨hupdate, hvalid⟩ | hupdate := update_cases C P key d op
  · rw [hupdate]
    exact ⟨hvalid, Op.apply_owned h.owned htidy, Op.apply_granted h.owned h.verified htidy⟩
  · rw [hupdate]
    exact ⟨h.valid, h.owned, granted_nothing op h.verified⟩

theorem keeps_default : Keeps C P key (fun _ => none) Document.default where
  valid := rfl
  owned := by
    intro r hr
    cases hr
  verified := by
    intro user t ht
    cases ht

end Keeps

/-! ## References that parse -/

theorem isValidName_slash {name : Text} (h : isValidName name = true) : '/' ∉ name := by
  intro hmem
  simp only [isValidName, Bool.and_eq_true, List.all_eq_true] at h
  have hslash := h.1.2 '/' hmem
  exact absurd hslash (by decide)

theorem isValidName_ne {name : Text} (h : isValidName name = true) : name ≠ [] := by
  rintro rfl
  cases h

theorem validate_names {s : State} (h : s.validate = .ok ()) {name : Text}
    (hname : (s.pools.get name).isSome = true ∨ (s.users.get name).isSome = true) : isValidName name = true := by
  unfold State.validate at h
  split at h
  case isTrue => cases h
  case isFalse =>
    obtain ⟨-, -, h⟩ := Lib.bind_eq_ok.mp h
    obtain ⟨⟨⟩, hpools, husers⟩ := Lib.bind_eq_ok.mp h
    rw [Lib.forM_eq_ok] at hpools husers
    obtain hpool | huser := hname
    · obtain ⟨config, hget⟩ := Option.isSome_iff_exists.mp hpool
      have hcheck := hpools _ (SortedMap.mem_of_get hget)
      unfold State.validatePool at hcheck
      split at hcheck
      case isTrue => cases hcheck
      case isFalse hgood => simpa using hgood
    · obtain ⟨user, hget⟩ := Option.isSome_iff_exists.mp huser
      have hcheck := husers _ (SortedMap.mem_of_get hget)
      unfold State.validateUser at hcheck
      split at hcheck
      case isTrue => cases hcheck
      case isFalse hgood => simpa using hgood

theorem userVerifier_plain {user : Text} (h : isValidName user = true) : (userVerifier user).Plain where
  kind := show '/' ∉ "user".toList by decide
  owner := isValidName_slash h
  kind_ne := show "user".toList ≠ [] by decide
  owner_ne := isValidName_ne h
  field_ne := show "scram_verifier".toList ≠ [] by decide

theorem poolBackendPassword_plain {pool : Text} (h : isValidName pool = true) : (poolBackendPassword pool).Plain where
  kind := show '/' ∉ "pool".toList by decide
  owner := isValidName_slash h
  kind_ne := show "pool".toList ≠ [] by decide
  owner_ne := isValidName_ne h
  field_ne := show "backend_password".toList ≠ [] by decide

/-- What is owned in a checked state has a name that is accepted. -/
theorem Owns.plain {s : State} (hvalid : s.validate = .ok ()) {r : SecretRef} (h : Owns s.pools s.users r) :
    r.Plain := by
  obtain ⟨hkind, howner⟩ | ⟨hkind, howner⟩ := h
  · rw [hkind]
    exact poolBackendPassword_plain (validate_names hvalid (.inl howner))
  · rw [hkind]
    exact userVerifier_plain (validate_names hvalid (.inr howner))

/-! ## The states that are reached -/

section Reached

variable (C : Aead K) (P : Scram.Primitives) (key : K)

/-- What is meant to hold of the secrets: they have owners, a user is asked for no other verifier than the one last
`given`, and nothing is lost on the way through the state file. -/
structure Sound (given : Text → Option Scram.ScramVerifier) (d : Document) : Prop where
  owners : ∀ e ∈ d.secrets.entries.entries,
    e.1.kind = "pool".toList ∧ (d.pools.get e.1.owner).isSome = true ∨
      e.1.kind = "user".toList ∧ (d.users.get e.1.owner).isSome = true
  verifiers : ∀ known user pool auth, (d.users.get user).isSome = true →
    Admission.resolve (fun t => (Scram.ScramVerifier.parse P t).toOption) (d.state C key) known user pool = .ok auth →
      ∃ v, given user = some v ∧ (auth = .scram v ∨ ∃ allow, auth = .plaintext v allow)
  restored : ∃ s, SecretStore.fromJson P.base64 (d.secrets.toJson P.base64) = some s ∧
    ∀ r, s.get C key r = d.secrets.get C key r

variable {C P key} {given : Text → Option Scram.ScramVerifier} {d : Document}

theorem contains_of_mem {s : SecretStore} {e : SecretRef × SealedSecret} (h : e ∈ s.entries.entries) :
    s.contains e.1 = true := by
  rw [SecretStore.contains, SortedMap.get_of_mem h]
  rfl

/-- A key of the view is one of a secret. -/
theorem opened_get {s : SecretStore} {k t : Text} (h : (s.opened C key).get k = some t) :
    ∃ r, r.asKey = k ∧ s.contains r = true ∧ s.get C key r = .ok t := by
  have hfold : ∀ (l : List (SecretRef × SealedSecret)) (m : SortedMap Text Text),
      (∀ e ∈ l, e ∈ s.entries.entries) → (l.foldl (revealInto C key) m).get k = some t →
        m.get k = some t ∨ ∃ e ∈ s.entries.entries, e.1.asKey = k ∧ SecretStore.reveal C key e.1 e.2 = .ok t := by
    intro l
    induction l with
    | nil => exact fun m _ hget => .inl hget
    | cons e l ih =>
        intro m hmem hget
        obtain hnext | hfound := ih _ (fun e' he' => hmem e' (List.mem_cons_of_mem e he')) hget
        · unfold revealInto at hnext
          split at hnext
          case h_1 t' hreveal =>
            rw [SortedMap.get_insert] at hnext
            split at hnext
            case isTrue heq =>
              cases hnext
              exact .inr ⟨e, hmem e List.mem_cons_self, heq.symm, hreveal⟩
            case isFalse => exact .inl hnext
          case h_2 => exact .inl hnext
        · exact .inr hfound
  obtain hempty | ⟨e, he, hkey, hreveal⟩ := hfold _ _ (fun _ he => he) h
  · cases hempty
  · refine ⟨e.1, hkey, contains_of_mem he, ?_⟩
    rw [SecretStore.get_of_entry (SortedMap.get_of_mem he), hreveal]

theorem asKey_userVerifier (user : Text) : (userVerifier user).asKey = Admission.userVerifier user := by
  unfold Admission.userVerifier
  rw [List.append_assoc]
  rfl

theorem Keeps.plain (h : Keeps C P key given d) : d.secrets.Plain := by
  intro e he
  have howns := h.owned e.1 (contains_of_mem he)
  exact Owns.plain (s := d.state C key) h.valid howns

theorem Keeps.sound (h : Keeps C P key given d) : Sound C P key given d where
  owners := by
    intro e he
    obtain ⟨hkind, howner⟩ | ⟨hkind, howner⟩ := h.owned e.1 (contains_of_mem he)
    · exact .inl ⟨by rw [hkind]; rfl, howner⟩
    · exact .inr ⟨by rw [hkind]; rfl, howner⟩
  verifiers := by
    intro known user pool auth huser hauth
    obtain ⟨t, v, ht, hparse, hproves⟩ := Admission.resolve_of_record hauth huser
    obtain ⟨r, hkey, hcontains, hget⟩ := opened_get ht
    -- only the user's own reference has that key
    have hplain : r.Plain := Owns.plain (s := d.state C key) h.valid (h.owned r hcontains)
    have huserPlain := userVerifier_plain (validate_names h.valid (.inr huser))
    have href := hplain.eq_of_asKey huserPlain (hkey.trans (asKey_userVerifier user).symm)
    rw [href] at hget
    obtain ⟨w, hgiven, hiterations, rfl⟩ := h.verified user t hget
    simp only [Scram.ScramVerifier.parse_encode P w hiterations, Except.toOption, Option.some_inj] at hparse
    subst hparse
    exact ⟨w, hgiven, hproves⟩
  restored := ⟨d.secrets, SecretStore.fromJson_toJson P.base64 h.plain, fun _ => rfl⟩

end Reached

theorem latest_snoc (C : Aead K) (P : Scram.Primitives) (key : K) (user : Text) (ops : List Op) (op : Op) :
    latest C P key user (ops ++ [op]) =
      (gives C P key user (run (step C P key) Document.default ops) op).or (latest C P key user ops) :=
  Lib.lastOf_snoc ..

/-- In a run from the empty state whose requests are all tidy, the secrets follow their owners. -/
theorem secrets_follow_owners (C : Aead K) (P : Scram.Primitives) (key : K) (ops : List Op)
    (h : Along (step C P key) (Tidy C P key) Document.default ops) :
    Sound C P key (fun user => latest C P key user ops) (run (step C P key) Document.default ops) := by
  have hstep : ∀ (before : List Op) (d : Document) (op : Op),
      (d = run (step C P key) Document.default before ∧ Keeps C P key (fun user => latest C P key user before) d) →
        Tidy C P key d op → step C P key d op = run (step C P key) Document.default (before ++ [op]) ∧
          Keeps C P key (fun user => latest C P key user (before ++ [op])) (step C P key d op) := by
    rintro before d op ⟨rfl, hkeeps⟩ htidy
    refine ⟨by rw [Lib.run_append]; rfl, ?_⟩
    simp only [latest_snoc]
    exact step_keeps hkeeps htidy
  have hstart : Document.default = run (step C P key) Document.default [] ∧
      Keeps C P key (fun user => latest C P key user []) Document.default := ⟨rfl, keeps_default⟩
  have hkeeps := Along.history hstep h hstart
  exact hkeeps.2.sound

/-! ## The order of two deletions -/

/-- Any pool. -/
def config : PoolConfig where
  family := "postgres".toList
  mode := .transaction
  targets := [{ host := "db".toList, port := 5432 }]
  listenPort := 6432

def zeros : Nonce := ⟨List.replicate 12 0, rfl⟩

/-- A pool, and a user that may reach only this pool. -/
def granted : List Op :=
  [.createPool ['p'] config (some "hunter2".toList) zeros,
    .createUser ['u'] { pools := [['p']] } "secret".toList [1] zeros]

/-- The user is deleted before the pool. -/
theorem secrets_follow_owners_in_order :
    let ops := granted ++ [.updateUser ['u'] { password := some "changed".toList } [2] zeros, .deleteUser ['u'],
      .deletePool ['p']]
    Sound stamps Scram.sums [7] (fun user => latest stamps Scram.sums [7] user ops)
      (run (step stamps Scram.sums [7]) Document.default ops) :=
  secrets_follow_owners stamps Scram.sums [7] _ (by decide)

/-- The user goes along with the pool, and its verifier stays. -/
theorem not_secrets_follow_owners :
    ¬ ∀ ops, Sound stamps Scram.sums [7] (fun user => latest stamps Scram.sums [7] user ops)
      (run (step stamps Scram.sums [7]) Document.default ops) := by
  intro h
  have hsound := h (granted ++ [.deletePool ['p']])
  have hleft : (run (step stamps Scram.sums [7]) Document.default
      (granted ++ [.deletePool ['p']])).secrets.contains (userVerifier ['u']) = true := by decide
  have hgone : (run (step stamps Scram.sums [7]) Document.default
      (granted ++ [.deletePool ['p']])).users.get ['u'] = none := by decide
  obtain ⟨sealed, hsealed⟩ := Option.isSome_iff_exists.mp hleft
  obtain ⟨hkind, -⟩ | ⟨-, howner⟩ := hsound.owners _ (SortedMap.mem_of_get hsealed)
  · have hkinds : "user".toList = "pool".toList := hkind
    exact absurd hkinds (by decide)
  · change (SortedMap.get _ ['u']).isSome = true at howner
    rw [hgone] at howner
    cases howner

end Havuz.Secrets
