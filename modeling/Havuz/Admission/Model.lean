import Havuz.Relay
import Havuz.State

/-!
# Who may connect, and as what

Reference: `StateAuthenticator` and `PgFamily::session_policy` in `havuz-pg/src/family.rs`, `ClientAuth` and
`AuthDenial` in `havuz-pg/src/session.rs`. A stored verifier is whatever `parse` makes of the secret; the
verifiers the database vouched for are handed in by the caller.
-/

namespace Havuz.Admission

variable {V : Type}

inductive AuthDenial where
  | unknownUser
  | unknownPool (pool : Text)
  | notGranted (user pool : Text)
  | disabled
  /-- The database could not be asked. -/
  | unverifiable (reason : Text)
deriving DecidableEq, Repr

/-- How a client should prove who it is. -/
inductive ClientAuth (V : Type) where
  | scram (verifier : V)
  | plaintext (verifier : V) (allowWithoutTls : Bool)
  /-- Ask for the password, and let the database be the one to check it. -/
  | unproven (allowWithoutTls : Bool)
deriving DecidableEq, Repr

/-- `user_verifier(user).as_key()`. -/
def userVerifier (user : Text) : Text := "user/".toList ++ user ++ "/scram_verifier".toList

/-- The policy for a name that reached a passthrough pool without a record. -/
def passthroughAuth (known : Option V) (pool : PoolConfig) : ClientAuth V :=
  match known with
  | some verifier => .plaintext verifier pool.allowPasswordWithoutTls
  | none => .unproven pool.allowPasswordWithoutTls

/-- The end of `resolve`, for a user with a record. -/
def resolveUser (parse : Text → Option V) (s : State) (config : PoolConfig) (record : UserConfig)
    (user pool : Text) : Except AuthDenial (ClientAuth V) :=
  if record.disabled then .error .disabled
  else if !record.pools.contains pool then .error (.notGranted user pool)
  else
    match (s.secrets.get (userVerifier user)).bind parse with
    | none => .error .unknownUser
    | some verifier =>
        if config.backendAuth.isPerUser && record.ownBackendRole then
          .ok (.plaintext verifier config.allowPasswordWithoutTls)
        else .ok (.scram verifier)

/-- `StateAuthenticator::resolve`; `known` is the verifier of an identity the database vouched for. -/
def resolve (parse : Text → Option V) (s : State) (known : Option V) (user pool : Text) :
    Except AuthDenial (ClientAuth V) :=
  match s.pools.get pool with
  | none => .error (.unknownPool pool)
  | some config =>
      if config.disabled then .error (.unknownPool pool)
      else
        match s.users.get user with
        | none =>
            if config.backendAuth.isPassthrough then .ok (passthroughAuth known config)
            else .error .unknownUser
        | some record => resolveUser parse s config record user pool

/-- What a session may do and how many of them this identity may hold. -/
structure ResolvedPolicy where
  readOnly : Option ReadOnlyReason
  idleInTransaction : ℕ
  sessionLimit : ℕ
deriving DecidableEq, Repr

/-- `PgFamily::session_policy`. The two sources of read-only combine by OR; the pool's is reported. -/
def sessionPolicy (s : State) (pool user : Text) : ResolvedPolicy where
  readOnly :=
    if ((s.pools.get pool).map PoolConfig.readOnly).getD false then some .pool
    else if ((s.users.get user).map UserConfig.readOnly).getD false then some .user
    else none
  idleInTransaction := ((s.pools.get pool).map PoolConfig.idleInTransactionTimeout).getD 0
  sessionLimit := ((s.users.get user).map UserConfig.maxClientConnections).getD 0

/-- Only a name without a record is asked to prove itself to the database, or admitted on its word. -/
theorem resolve_without_record {parse : Text → Option V} {s : State} {known : Option V} {user pool : Text}
    {auth : ClientAuth V} (h : resolve parse s known user pool = .ok auth) (huser : s.users.get user = none) :
    ∃ config, s.pools.get pool = some config ∧ config.disabled = false ∧
      config.backendAuth.isPassthrough = true ∧ auth = passthroughAuth known config := by
  unfold resolve at h
  split at h
  case h_1 => cases h
  case h_2 config hpool =>
    split at h
    case isTrue => cases h
    case isFalse henabled =>
      rw [huser] at h
      simp only at h
      split at h
      case isTrue hpass =>
        cases h
        exact ⟨config, hpool, by simpa using henabled, hpass, rfl⟩
      case isFalse => cases h

/-- Who has a record is asked for what the stored verifier says. -/
theorem resolve_of_record {parse : Text → Option V} {s : State} {known : Option V} {user pool : Text}
    {auth : ClientAuth V} (h : resolve parse s known user pool = .ok auth)
    (huser : (s.users.get user).isSome = true) :
    ∃ t v, s.secrets.get (userVerifier user) = some t ∧ parse t = some v ∧
      (auth = .scram v ∨ ∃ allow, auth = .plaintext v allow) := by
  obtain ⟨record, hrecord⟩ := Option.isSome_iff_exists.mp huser
  unfold resolve at h
  split at h
  case h_1 => cases h
  case h_2 config _ =>
    split at h
    case isTrue => cases h
    case isFalse =>
      rw [hrecord] at h
      simp only [resolveUser] at h
      split at h
      case isTrue => cases h
      case isFalse =>
        split at h
        case isTrue => cases h
        case isFalse =>
          split at h
          case h_1 => cases h
          case h_2 v hv =>
            obtain ⟨t, ht, hparse⟩ := Option.bind_eq_some_iff.mp hv
            refine ⟨t, v, ht, hparse, ?_⟩
            split at h
            · cases h
              exact .inr ⟨_, rfl⟩
            · cases h
              exact .inl rfl

/-- Nobody with a record is asked to prove itself to the database. -/
theorem not_unproven_of_record {parse : Text → Option V} {s : State} {known : Option V} {user pool : Text}
    {allow : Bool} (h : resolve parse s known user pool = .ok (.unproven allow)) : s.users.get user = none := by
  unfold resolve at h
  split at h
  case h_1 => cases h
  case h_2 =>
    split at h
    case isTrue => cases h
    case isFalse =>
      split at h
      case h_1 hnone => exact hnone
      case h_2 =>
        unfold resolveUser at h
        repeat' split at h
        all_goals cases h

end Havuz.Admission
