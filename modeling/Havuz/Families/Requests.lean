import Havuz.Families.Model
import Havuz.Lib.Interleave

/-!
# Admin requests about pools

Reference: `create_pool`, `update_pool`, `delete_pool` and `set_disabled` in `havuz-admin/src/routes.rs`.
A request changes the state under the store's lock and then brings one family's pool map in line, which
loads the state and takes the map's lock as two steps. Requests take turns at these steps.

What another family does in `sync_all` is left out: a request that fails there does not finish without
error. The checks of a request that only refuse it (ports, TLS, form fields) are left out as well.
-/

namespace Havuz.Families

open Lib

/-- The body of a `PATCH`. -/
structure Patch where
  mode : Option PoolMode := none
  maxSize : Option ℕ := none
  listenPort : Option ℕ := none
  aliases : Option (List Text) := none
  allowPasswordWithoutTls : Option Bool := none
  readOnly : Option Bool := none
  idleInTransactionTimeout : Option ℕ := none
deriving DecidableEq, Repr

def Patch.apply (p : Patch) (pool : PoolConfig) : PoolConfig :=
  { pool with
    mode := p.mode.getD pool.mode
    maxSize := p.maxSize.getD pool.maxSize
    listenPort := p.listenPort.getD pool.listenPort
    aliases := p.aliases.getD pool.aliases
    allowPasswordWithoutTls := p.allowPasswordWithoutTls.getD pool.allowPasswordWithoutTls
    readOnly := p.readOnly.getD pool.readOnly
    idleInTransactionTimeout := p.idleInTransactionTimeout.getD pool.idleInTransactionTimeout }

/-- What an admin asks for. -/
inductive Change where
  | create (config : PoolConfig)
  | patch (body : Patch)
  | setDisabled (disabled : Bool)
  | delete
deriving DecidableEq, Repr

/-- `retain_owners("pool", ..)`: drop the secrets of pools that are gone. -/
def retainPoolSecrets (pools : SortedMap Text PoolConfig) (secrets : SortedMap Text Text) :
    SortedMap Text Text :=
  secrets.filter fun e =>
    match Text.splitOnce '/' e.1 with
    | none => true
    | some (kind, rest) =>
        kind ≠ "pool".toList || (pools.get (rest.takeWhile (· ≠ '/'))).isSome

/-- The closure a handler passes to `StateStore::update`; `none` where it answers that there is no such
pool, or already is one. -/
def Change.apply (c : Change) (name : Text) (s : State) : Option State :=
  match c with
  | .create config =>
      match s.pools.get name with
      | some _ => none
      | none => some { s with pools := s.pools.insert name config }
  | .patch body =>
      (s.pools.get name).map fun pool => { s with pools := s.pools.insert name (body.apply pool) }
  | .setDisabled disabled =>
      (s.pools.get name).map fun pool => { s with pools := s.pools.insert name { pool with disabled } }
  | .delete =>
      (s.pools.get name).map fun _ =>
        let pools := s.pools.erase name
        { s with
          pools
          users := (s.users.mapValues fun user => { user with pools := user.pools.filter (· ≠ name) }).filter
            fun e => !e.2.pools.isEmpty
          secrets := retainPoolSecrets pools s.secrets }

/-- How a request brings the family in line once its change is published. -/
inductive Follow where
  | sync
  | reload
  /-- It reloads the other family. -/
  | other
deriving DecidableEq, Repr

/-- Where a request is. -/
inductive Pc where
  | start
  /-- A patch has looked up the pool's family. -/
  | looked (family : Text)
  /-- Its change is published. -/
  | updated (follow : Follow)
  /-- A reload has taken the old entry out. -/
  | removed
  /-- The rebuild has loaded the state and waits for the lock of the map. -/
  | loaded (snapshot : State)
  | done
  | failed
deriving DecidableEq

structure Request where
  name : Text
  change : Change
  pc : Pc := .start
deriving DecidableEq

/-- What the requests share: the published state and the family's pool map. -/
structure Shared where
  store : State
  live : Live
deriving DecidableEq

/-- `StateStore::update`, the checks and the publication as one step: an invalid state is not
published. -/
def publish (r : Request) (s : State) : Option State :=
  (r.change.apply r.name s).filter fun s' => s'.validate = .ok ()

/-- The change is published or refused. -/
def update (follow : Follow) (sh : Shared) (r : Request) : Shared × Request :=
  match publish r sh.store with
  | some s' => ({ sh with store := s' }, { r with pc := .updated follow })
  | none => (sh, { r with pc := .failed })

/-- One step of a request; `fails` says what building a pool comes to right now. -/
def act (d : Driver) (fails : Fails) (sh : Shared) (r : Request) : Option (Shared × Request) :=
  match r.pc with
  | .start =>
      match r.change with
      -- The family to reload is read before the change is made.
      | .patch _ =>
          match sh.store.pools.get r.name with
          | none => some (sh, { r with pc := .failed })
          | some existing => some (sh, { r with pc := .looked existing.family })
      | _ => some (update .sync sh r)
  | .looked family => some (update (if family = d.id then .reload else .other) sh r)
  | .updated .sync => some (sh, { r with pc := .loaded sh.store })
  | .updated .reload => some ({ sh with live := sh.live.takeOut d r.name }, { r with pc := .removed })
  | .updated .other => some (sh, { r with pc := .done })
  | .removed => some (sh, { r with pc := .loaded sh.store })
  | .loaded snapshot =>
      match sh.live.rebuild d fails snapshot with
      | (live, .ok ()) => some ({ sh with live }, { r with pc := .done })
      | (live, .error _) => some ({ sh with live }, { r with pc := .failed })
  | .done => none
  | .failed => none

/-- The request is about to publish its change, and how it goes on from there. -/
def Request.about (d : Driver) (r : Request) : Option Follow :=
  match r.pc, r.change with
  | .start, .patch _ => none
  | .start, _ => some .sync
  | .looked family, _ => some (if family = d.id then .reload else .other)
  | _, _ => none

/-- One turn. -/
def step (d : Driver) : Procs Shared Request → ℕ × Fails → Procs Shared Request := Procs.step (act d)

/-- These requests are about to be made. -/
def arriving (s : State) (live : Live) (requests : List (Text × Change)) : Procs Shared Request :=
  ⟨⟨s, live⟩, requests.map fun r => { name := r.1, change := r.2 }⟩

/-! ## What a change does to the configuration -/

variable {d : Driver}

theorem publish_eq_some {r : Request} {s s' : State} :
    publish r s = some s' ↔ r.change.apply r.name s = some s' ∧ s'.validate = .ok () := by
  simp [publish, Option.filter_eq_some_iff]

/-- A change is about one name. -/
theorem Change.apply_other {c : Change} {name n : Text} {s s' : State} (h : c.apply name s = some s')
    (hne : n ≠ name) : s'.pools.get n = s.pools.get n := by
  unfold Change.apply at h
  split at h
  case h_1 =>
    split at h
    · cases h
    · cases h
      simp [hne]
  case h_2 =>
    obtain ⟨pool, -, rfl⟩ := Option.map_eq_some_iff.mp h
    simp [hne]
  case h_3 =>
    obtain ⟨pool, -, rfl⟩ := Option.map_eq_some_iff.mp h
    simp [hne]
  case h_4 =>
    obtain ⟨pool, -, rfl⟩ := Option.map_eq_some_iff.mp h
    simp [hne]

theorem publish_wants {r : Request} {s s' : State} (h : publish r s = some s') {n : Text}
    (hne : n ≠ r.name) : d.wants s' n = d.wants s n := by
  rw [Driver.wants, Driver.wants, Change.apply_other (publish_eq_some.mp h).1 hne]

/-! ## What a step does -/

/-- All that a step of a request can be. -/
inductive Course (d : Driver) (fails : Fails) (sh : Shared) (r : Request) : Shared → Request → Prop
  | gives_up {sh' : Shared} {r' : Request} (hpc : r'.pc = .failed) : Course d fails sh r sh' r'
  | looks (family : Text) (hpc : r.pc = .start) : Course d fails sh r sh { r with pc := .looked family }
  | changes (follow : Follow) (s' : State) (habout : r.about d = some follow)
      (hpublish : publish r sh.store = some s') :
      Course d fails sh r { sh with store := s' } { r with pc := .updated follow }
  | loads (hpc : r.pc = .updated .sync ∨ r.pc = .removed) :
      Course d fails sh r sh { r with pc := .loaded sh.store }
  | takes_out (hpc : r.pc = .updated .reload) :
      Course d fails sh r { sh with live := sh.live.takeOut d r.name } { r with pc := .removed }
  | leaves (hpc : r.pc = .updated .other) : Course d fails sh r sh { r with pc := .done }
  | rebuilds (snapshot : State) (hpc : r.pc = .loaded snapshot)
      (hok : (sh.live.rebuild d fails snapshot).2 = .ok ()) :
      Course d fails sh r { sh with live := (sh.live.rebuild d fails snapshot).1 } { r with pc := .done }

theorem update_course {fails : Fails} {sh sh' : Shared} {r r' : Request} {follow : Follow}
    (habout : r.about d = some follow) (h : update follow sh r = (sh', r')) :
    Course d fails sh r sh' r' := by
  unfold update at h
  split at h
  case h_1 s' hpublish =>
    cases h
    exact .changes follow s' habout hpublish
  case h_2 =>
    cases h
    exact .gives_up rfl

theorem act_course {fails : Fails} {sh sh' : Shared} {r r' : Request}
    (h : act d fails sh r = some (sh', r')) : Course d fails sh r sh' r' := by
  unfold act at h
  split at h
  case h_1 hpc =>
    split at h
    case h_1 body hchange =>
      split at h
      · cases h
        exact .gives_up rfl
      · cases h
        exact .looks _ hpc
    case h_2 hchange =>
      apply update_course _ (Option.some_inj.mp h)
      unfold Request.about
      rw [hpc]
      match hc : r.change with
      | .create _ => rfl
      | .patch body => exact absurd hc (hchange body)
      | .setDisabled _ => rfl
      | .delete => rfl
  case h_2 family hpc =>
    apply update_course _ (Option.some_inj.mp h)
    unfold Request.about
    rw [hpc]
  case h_3 hpc =>
    cases h
    exact .loads (.inl hpc)
  case h_4 hpc =>
    cases h
    exact .takes_out hpc
  case h_5 hpc =>
    cases h
    exact .leaves hpc
  case h_6 hpc =>
    cases h
    exact .loads (.inr hpc)
  case h_7 snapshot hpc =>
    split at h
    case h_1 live heq =>
      cases h
      have hlive : live = (sh.live.rebuild d fails snapshot).1 := by rw [heq]
      rw [hlive]
      exact .rebuilds snapshot hpc (by rw [heq])
    case h_2 =>
      cases h
      exact .gives_up rfl
  case h_8 => cases h
  case h_9 => cases h

end Havuz.Families
