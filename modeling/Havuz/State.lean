import Havuz.Registry
import Havuz.Lib.Fallible
import Havuz.Lib.SortedMap
import Mathlib.Data.Prod.Lex

/-!
# The configuration

Reference: `havuz-core/src/state.rs`. `State` is what the store publishes, `validate` is the check it
passes before it is served. Limits, timeouts and descriptions that no modelled function reads are left
out; a port is a natural number.
-/

namespace Havuz

open Lib (SortedMap)

/-- Which identity havuz opens backend connections as. -/
inductive BackendAuth where
  | shared
  | perUser
  | passthrough
deriving DecidableEq, Repr

namespace BackendAuth

def isPerUser : BackendAuth → Bool
  | shared => false
  | perUser => true
  | passthrough => true

def isPassthrough : BackendAuth → Bool
  | shared => false
  | perUser => false
  | passthrough => true

end BackendAuth

inductive TargetRole where
  | primary
  | replica
deriving DecidableEq, Repr

structure Target where
  host : Text
  port : ℕ
  role : TargetRole := .primary
deriving DecidableEq, Repr

structure PoolConfig where
  /-- Registry family id. -/
  family : Text
  /-- Registry driver profile id; `none` uses the family default. -/
  profile : Option Text := none
  mode : PoolMode
  targets : List Target
  /-- Backend service account, empty when there is none. -/
  backendUser : Text := []
  /-- Database opened on the backend. -/
  database : Text := []
  /-- Client-facing port. -/
  listenPort : ℕ
  /-- Extra names clients may put in their database field to reach this pool. -/
  aliases : List Text := []
  maxSize : ℕ := 10
  minIdle : ℕ := 0
  /-- How long a session may sit inside an open transaction; zero means no limit. -/
  idleInTransactionTimeout : ℕ := 0
  /-- `settings["reset_query"]`. -/
  resetQuerySetting : Option Text := none
  readWriteSplit : Bool := false
  backendAuth : BackendAuth := .shared
  allowPasswordWithoutTls : Bool := false
  readOnly : Bool := false
  disabled : Bool := false
deriving DecidableEq, Repr

structure UserConfig where
  /-- Pools this user may reach. -/
  pools : List Text
  /-- How many sessions this user may have; zero means no limit. -/
  maxClientConnections : ℕ := 0
  ownBackendRole : Bool := false
  readOnly : Bool := false
  disabled : Bool := false
deriving DecidableEq, Repr

/-- `STATE_VERSION`. -/
def stateVersion : ℕ := 1

structure State where
  version : ℕ
  pools : SortedMap Text PoolConfig
  users : SortedMap Text UserConfig
  /-- What the sealed secrets open to, under `kind/owner/field`. -/
  secrets : SortedMap Text Text
deriving DecidableEq

/-- `State::default`. -/
def State.default : State := ⟨stateVersion, .empty, .empty, .empty⟩

inductive StateError where
  | unsupportedVersion (found expected : ℕ)
  | badPoolName (pool : Text)
  | badUserName (user : Text)
  | unknownFamily (pool family : Text)
  | unknownProfile (pool family profile : Text)
  | familyNotImplemented (pool family : Text)
  | poolModeUnsupported (pool family : Text) (mode : PoolMode) (offered : List PoolMode)
  | poolModeTooAggressive (pool profile : Text) (mode max : PoolMode)
  | noTargets (pool : Text)
  | minIdleAboveMax (pool : Text) (minIdle maxSize : ℕ)
  | zeroMaxSize (pool : Text)
  | zeroListenPort (pool : Text)
  | mixedFamiliesOnPort (first firstFamily second secondFamily : Text) (port : ℕ)
  | badAliasName (pool alias_ : Text)
  | aliasIsOwnPool (pool alias_ : Text)
  | routableNameCollides (name : Text) (port : ℕ) (first second : Text)
  | perUserWarmup (pool : Text)
  | perUserSplitWithoutProbe (pool : Text)
  | unknownPoolGrant (user pool : Text)
  | noGrants (user : Text)
deriving DecidableEq, Repr

/-- Names end up in URLs, log lines and metric labels. -/
def isValidName (name : Text) : Bool :=
  !name.isEmpty && decide (name.asBytes.length ≤ 63) &&
    name.all (fun c => isAsciiAlphanumeric c || c == '_' || c == '-') &&
    name.head?.any isAsciiAlphanumeric

/-- Ordering used to compare how aggressive a pooling mode is. -/
def rank : PoolMode → ℕ
  | .session => 0
  | .transaction => 1
  | .statement => 2

/-! ## One pool -/

namespace PoolConfig

/-- The family and the profile the pool names, the first two checks of `PoolConfig::validate`. -/
def driver (p : PoolConfig) (name : Text) : Except StateError (FamilyDescriptor × DriverProfile) :=
  match Havuz.family p.family with
  | none => .error (.unknownFamily name p.family)
  | some family =>
      if family.maturity = .planned then .error (.familyNotImplemented name p.family)
      else
        match p.profile with
        | none => .ok (family, family.defaultProfile)
        | some id =>
            match family.profile id with
            | none => .error (.unknownProfile name p.family id)
            | some profile => .ok (family, profile)

/-- Per-user pools cannot warm connections, nor measure lag without a service account. -/
def validatePerUser (p : PoolConfig) (name : Text) : Except StateError Unit :=
  if !p.backendAuth.isPerUser then .ok ()
  else if p.minIdle > 0 then .error (.perUserWarmup name)
  else if p.readWriteSplit && p.backendUser.isEmpty then .error (.perUserSplitWithoutProbe name)
  else .ok ()

/-- `PoolConfig::validate`. -/
def validate (p : PoolConfig) (name : Text) : Except StateError Unit := do
  let (family, profile) ← p.driver name
  if !family.poolModes.contains p.mode then
    .error (.poolModeUnsupported name p.family p.mode family.poolModes)
  else if rank p.mode > rank profile.maxPoolMode then
    .error (.poolModeTooAggressive name profile.id p.mode profile.maxPoolMode)
  else if p.targets.isEmpty then .error (.noTargets name)
  else if p.maxSize = 0 then .error (.zeroMaxSize name)
  else if p.minIdle > p.maxSize then .error (.minIdleAboveMax name p.minIdle p.maxSize)
  else p.validatePerUser name

/-- Primary target, the one that accepts writes. -/
def primary (p : PoolConfig) : Option Target :=
  match p.targets.find? fun t => t.role = .primary with
  | some t => some t
  | none => p.targets.head?

/-- `PoolConfig::profile`. -/
def driverProfile (p : PoolConfig) : Option DriverProfile := do
  let family ← Havuz.family p.family
  match p.profile with
  | some id => some ((family.profile id).getD family.defaultProfile)
  | none => some family.defaultProfile

/-- Statement that returns a backend connection to a reusable state. -/
def resetQuery (p : PoolConfig) : Option Text :=
  match (p.resetQuerySetting.map Text.trim).filter fun sql => !sql.isEmpty with
  | some sql => some sql
  | none => p.driverProfile.bind fun profile => profile.session.resetQuery

end PoolConfig

/-! ## Ports and names -/

namespace State

/-- The first pool of every port with its family. -/
abbrev Ports := SortedMap ℕ (Text × Text)

/-- Every string a client may put in its database field, per port, with the pool that owns it. -/
abbrev Routable := SortedMap (ℕ ×ₗ Text) Text

/-- The first loop of `validate_listeners`: one family for each port, and every pool under its name. -/
def enterPool (seen : Ports × Routable) (entry : Text × PoolConfig) :
    Except StateError (Ports × Routable) :=
  let (name, pool) := entry
  if pool.listenPort = 0 then .error (.zeroListenPort name)
  else
    let (first, firstFamily) := (seen.1.get pool.listenPort).getD (name, pool.family)
    if firstFamily ≠ pool.family then
      .error (.mixedFamiliesOnPort first firstFamily name pool.family pool.listenPort)
    else
      .ok (seen.1.insert pool.listenPort (first, firstFamily),
        seen.2.insert (toLex (pool.listenPort, name)) name)

/-- One alias of one pool in the second loop. -/
def enterAlias (name : Text) (pool : PoolConfig) (routable : Routable) (alias_ : Text) :
    Except StateError Routable :=
  if !isValidName alias_ then .error (.badAliasName name alias_)
  else if alias_ = name then .error (.aliasIsOwnPool name alias_)
  else
    match routable.get (toLex (pool.listenPort, alias_)) with
    | some other => .error (.routableNameCollides alias_ pool.listenPort other name)
    | none => .ok (routable.insert (toLex (pool.listenPort, alias_)) name)

/-- The second loop of `validate_listeners`: the aliases of one pool. -/
def enterAliases (routable : Routable) (entry : Text × PoolConfig) : Except StateError Routable :=
  entry.2.aliases.foldlM (enterAlias entry.1 entry.2) routable

/-- Every port speaks one protocol, and every name on it reaches one pool. -/
def validateListeners (s : State) : Except StateError Routable := do
  let (_, routable) ← s.pools.entries.foldlM enterPool (SortedMap.empty, SortedMap.empty)
  s.pools.entries.foldlM enterAliases routable

/-- A pool's name and the pool itself. -/
def validatePool (entry : Text × PoolConfig) : Except StateError Unit :=
  if !isValidName entry.1 then .error (.badPoolName entry.1) else entry.2.validate entry.1

/-- A user's name and its grants. -/
def validateUser (s : State) (entry : Text × UserConfig) : Except StateError Unit :=
  if !isValidName entry.1 then .error (.badUserName entry.1)
  else if entry.2.pools.isEmpty then .error (.noGrants entry.1)
  else
    forM entry.2.pools fun granted =>
      if (s.pools.get granted).isNone then .error (.unknownPoolGrant entry.1 granted) else .ok ()

/-- `State::validate`. -/
def validate (s : State) : Except StateError Unit := do
  if s.version > stateVersion then .error (.unsupportedVersion s.version stateVersion)
  else
    let _ ← s.validateListeners
    forM s.pools.entries validatePool
    forM s.users.entries s.validateUser

/-- A map without pools and users passes every check. -/
example : State.default.validate = .ok () := by decide

end State

end Havuz
