import Havuz.Lib.Interleave
import Havuz.Lib.SortedMap
import Havuz.Text
import Mathlib.Data.Prod.Lex

/-!
# Connection groups of single users

Reference: `group_for`, `sweep_idle_users` and `serve` in `havuz-pg/src/family.rs`, `SessionRegistry` in
`havuz-control/src/sessions.rs`, `acquire` and `Checkout::drop` in `havuz-pool/src/pool.rs`.

Clients and the sweeper take turns at sections under a lock and at awaits. A pool's own bookkeeping is kept
as far as the sweeper looks at it: what is counted as active, what is idle and what is handed out, on its way
out or on its way back. A connection on its way is counted nowhere. Pools are not reconfigured here.
-/

namespace Havuz.PerUser

open Lib

/-- Why a group was drained. -/
inductive Cause where
  | swept
  | replaced
deriving DecidableEq, Repr

/-- A `UserGroup`, for as long as anybody has it. Its targets are numbered; a list of targets has one entry
for each connection. -/
structure Group where
  pool : Text
  user : Text
  /-- Which password its connections are opened with. -/
  fingerprint : Text
  active : ℕ := 0
  idle : List ℕ := []
  /-- The connections with a permit: handed out, on their way out or on their way back. -/
  out : List ℕ := []
  drained : Option Cause := none
deriving DecidableEq

/-- `combined_pool_snapshot().open`. -/
def Group.opened (G : Group) : ℕ := G.active + G.idle.length

/-- `PoolGroup::drain`. -/
def Group.drain (cause : Cause) (G : Group) : Group :=
  { G with
    idle := []
    drained := G.drained.or (some cause) }

structure Session where
  id : ℕ
  pool : Text
  user : Text
deriving DecidableEq, Repr

inductive Sweeper where
  | asleep
  /-- Has read who has a session on the pool. `upTo` is not part of the program: the next session's id then. -/
  | looked (pool : Text) (live : List Text) (upTo : ℕ)
deriving DecidableEq, Repr

structure Shared where
  /-- Every group ever built. -/
  groups : List Group := []
  /-- `per_user`, under pool and user. -/
  perUser : SortedMap (Text ×ₗ Text) ℕ := .empty
  sessions : List Session := []
  nextId : ℕ := 1
  sweeper : Sweeper := .asleep
deriving DecidableEq

/-- Where a client is, with its group, its session and the target of its checkout. No group of its own is the
pool's shared one. -/
inductive Pc where
  | arriving
  /-- `group_for` found nothing under the read lock. -/
  | missed
  | grouped (g : Option ℕ)
  | registered (g : Option ℕ) (id : ℕ)
  /-- `acquire` found the pool active and waits for a permit. -/
  | waiting (g : ℕ) (id : ℕ)
  /-- Has the permit and a connection that is not counted yet, or opens one. -/
  | coming (g : ℕ) (id : ℕ) (target : ℕ)
  | serving (g : ℕ) (id : ℕ) (target : ℕ)
  /-- `Checkout::drop`: the connection is no longer counted as active. -/
  | returning (g : ℕ) (id : ℕ) (target : ℕ)
  /-- It has looked whether the connection is to be kept. -/
  | shelving (g : ℕ) (id : ℕ) (target : ℕ) (keep : Bool)
  | ended
deriving DecidableEq, Repr

/-- An authenticated client, with the fingerprint of its credential if it has one. -/
structure Client where
  pool : Text
  user : Text
  fingerprint : Option Text
  pc : Pc := .arriving
deriving DecidableEq

inductive Move where
  | lookUp
  /-- The section of `group_for` under the write lock; building a group may fail. -/
  | build (ok : Bool)
  /-- `register`, which refuses a user at its limit. -/
  | register (room : Bool)
  | acquire
  /-- The permit is granted, for an idle connection or a new one. -/
  | take (target : ℕ)
  /-- The connection is unfit and the next one is tried. -/
  | retry
  | counted
  /-- The acquire ends without a connection. -/
  | giveUp
  | drop
  /-- A connection that is unfit or whose pool is drained is not kept. -/
  | inspect (fit : Bool)
  | giveBack
  | leave

/-- What happens beside the clients. -/
inductive Event where
  /-- `sweep_idle_users` reads the sessions of a pool. -/
  | look (pool : Text)
  /-- It goes over the groups of that pool under their lock. -/
  | sweep
  /-- The pool closes an idle connection. -/
  | reap (g target : ℕ)

namespace Shared

def modify (sh : Shared) (g : ℕ) (f : Group → Group) : Shared := { sh with groups := sh.groups.modify g f }

/-- The group `group_for` has for this user. -/
def held (sh : Shared) (pool user : Text) : Option ℕ := sh.perUser.get (toLex (pool, user))

/-- The group a client with this credential is given without building one. -/
def found (sh : Shared) (pool user fingerprint : Text) : Option ℕ :=
  (sh.held pool user).filter fun g => (sh.groups[g]?).any fun G => G.fingerprint = fingerprint

/-- A group of another password has to go. -/
def retire (sh : Shared) (pool user : Text) : Shared :=
  match sh.held pool user with
  | some g => sh.modify g (Group.drain .replaced)
  | none => sh

def insert (sh : Shared) (pool user fingerprint : Text) : Shared :=
  { sh with
    groups := sh.groups ++ [{ pool, user, fingerprint }]
    perUser := sh.perUser.insert (toLex (pool, user)) sh.groups.length }

def register (sh : Shared) (pool user : Text) : Shared :=
  { sh with
    sessions := sh.sessions ++ [⟨sh.nextId, pool, user⟩]
    nextId := sh.nextId + 1 }

def deregister (sh : Shared) (id : ℕ) : Shared := { sh with sessions := sh.sessions.filter fun s => s.id ≠ id }

/-- `users_in_pool`. -/
def usersInPool (sh : Shared) (pool : Text) : List Text := (sh.sessions.filter fun s => s.pool = pool).map Session.user

/-- The groups the sweeper lets go of: no live session and no open connection. -/
def swept (sh : Shared) (pool : Text) (live : List Text) : List ℕ :=
  (sh.perUser.entries.filter fun e => (ofLex e.1).1 = pool && !live.contains (ofLex e.1).2 &&
    (sh.groups[e.2]?).all fun G => G.opened = 0).map Prod.snd

/-- The `retain` pass of `sweep_idle_users`. -/
def sweep (sh : Shared) (pool : Text) (live : List Text) : Shared :=
  { sh with
    groups := sh.groups.mapIdx fun g G => if g ∈ sh.swept pool live then G.drain .swept else G
    perUser := sh.perUser.filter fun e => e.2 ∉ sh.swept pool live
    sweeper := .asleep }

end Shared

section Act

-- The connections a pool may have to each target for one user.
variable (maxSize : Text → ℕ)

/-- One step of a client. -/
def act (m : Move) (sh : Shared) (c : Client) : Option (Shared × Client) :=
  match c.pc, m with
  | .arriving, .lookUp =>
      match c.fingerprint with
      | none => some (sh, { c with pc := .grouped none })
      | some fingerprint =>
          match sh.found c.pool c.user fingerprint with
          | some g => some (sh, { c with pc := .grouped (some g) })
          | none => some (sh, { c with pc := .missed })
  | .missed, .build ok =>
      match c.fingerprint with
      | none => none
      | some fingerprint =>
          match sh.found c.pool c.user fingerprint with
          | some g => some (sh, { c with pc := .grouped (some g) })
          | none =>
              if ok then
                some ((sh.retire c.pool c.user).insert c.pool c.user fingerprint,
                  { c with pc := .grouped (some sh.groups.length) })
              else some (sh.retire c.pool c.user, { c with pc := .ended })
  | .grouped g, .register room =>
      if room then some (sh.register c.pool c.user, { c with pc := .registered g sh.nextId })
      else some (sh, { c with pc := .ended })
  | .registered (some g) id, .acquire =>
      match (sh.groups[g]?).bind Group.drained with
      | none => some (sh, { c with pc := .waiting g id })
      | some _ => some (sh, c)
  | .waiting g id, .take target =>
      if ((sh.groups[g]?).map fun G => G.out.count target).getD 0 < maxSize c.pool then
        some (sh.modify g fun G => { G with idle := G.idle.erase target, out := target :: G.out },
          { c with pc := .coming g id target })
      else none
  | .coming g id target, .retry =>
      some (sh.modify g fun G => { G with idle := G.idle.erase target }, { c with pc := .coming g id target })
  | .coming g id target, .counted =>
      some (sh.modify g fun G => { G with active := G.active + 1 }, { c with pc := .serving g id target })
  | .waiting g id, .giveUp => some (sh, { c with pc := .registered (some g) id })
  | .coming g id target, .giveUp =>
      some (sh.modify g fun G => { G with out := G.out.erase target }, { c with pc := .registered (some g) id })
  | .serving g id target, .drop =>
      some (sh.modify g fun G => { G with active := G.active - 1 }, { c with pc := .returning g id target })
  | .returning g id target, .inspect fit =>
      some (sh, { c with pc := .shelving g id target (fit && ((sh.groups[g]?).bind Group.drained).isNone) })
  | .shelving g id target keep, .giveBack =>
      some (sh.modify g fun G =>
        { G with
          idle := if keep then target :: G.idle else G.idle
          out := G.out.erase target }, { c with pc := .registered (some g) id })
  | .registered _ id, .leave => some (sh.deregister id, { c with pc := .ended })
  | .arriving, .leave => some (sh, { c with pc := .ended })
  | .missed, .leave => some (sh, { c with pc := .ended })
  | .grouped _, .leave => some (sh, { c with pc := .ended })
  | _, _ => none

/-- What an event does. -/
def happen (sh : Shared) : Event → Shared
  | .look pool =>
      match sh.sweeper with
      | .asleep => { sh with sweeper := .looked pool (sh.usersInPool pool) sh.nextId }
      | .looked _ _ _ => sh
  | .sweep =>
      match sh.sweeper with
      | .asleep => sh
      | .looked pool live _ => sh.sweep pool live
  | .reap g target => sh.modify g fun G => { G with idle := G.idle.erase target }

/-- One step of the system. -/
def step (w : Procs Shared Client) : (ℕ × Move) ⊕ Event → Procs Shared Client
  | .inl l => w.step (act maxSize) l
  | .inr e => { w with shared := happen w.shared e }

end Act

/-- Authenticated clients, each with its pool, its user and what its credential is. -/
def authenticated (clients : List (Text × Text × Option Text)) : Procs Shared Client :=
  ⟨{}, clients.map fun c => { pool := c.1, user := c.2.1, fingerprint := c.2.2 }⟩

/-! ## What a client has -/

namespace Pc

/-- The group of its own it was given and has not let go of. -/
def group : Pc → Option ℕ
  | grouped g => g
  | registered g _ => g
  | waiting g _ => some g
  | coming g _ _ => some g
  | serving g _ _ => some g
  | returning g _ _ => some g
  | shelving g _ _ _ => some g
  | _ => none

def session : Pc → Option ℕ
  | registered _ id => some id
  | waiting _ id => some id
  | coming _ id _ => some id
  | serving _ id _ => some id
  | returning _ id _ => some id
  | shelving _ id _ _ => some id
  | _ => none

/-- The group and target of the permit it has. -/
def permit : Pc → Option (ℕ × ℕ)
  | coming g _ target => some (g, target)
  | serving g _ target => some (g, target)
  | returning g _ target => some (g, target)
  | shelving g _ target _ => some (g, target)
  | _ => none

/-- The group it is acquiring from or has a checkout of. -/
def busy : Pc → Option ℕ
  | waiting g _ => some g
  | coming g _ _ => some g
  | serving g _ _ => some g
  | returning g _ _ => some g
  | shelving g _ _ _ => some g
  | _ => none

end Pc

/-- The connections of a user on one target of a pool: idle, handed out or on their way. -/
def Shared.connections (sh : Shared) (pool user : Text) (target : ℕ) : ℕ :=
  total (fun G => if G.pool = pool ∧ G.user = user then G.idle.count target + G.out.count target else 0) sh.groups

/-! ## The conditions -/

/-- The client has no session the sweeper could have seen when it looked. -/
def Pc.late (upTo : ℕ) (pc : Pc) : Bool := pc.session.all fun id => upTo ≤ id

/-- The condition on a run: when the sweeper goes over the groups, none that it lets go of belongs to a
client that is not registered yet or was registered after it looked. -/
def Careful (w : Procs Shared Client) : (ℕ × Move) ⊕ Event → Prop
  | .inr .sweep =>
      match w.shared.sweeper with
      | .asleep => True
      | .looked pool live upTo => ∀ c ∈ w.procs, c.pc.late upTo = true →
          ∀ g ∈ c.pc.group, g ∉ w.shared.swept pool live
  | _ => True

/-- The condition for the number of connections: when `group_for` replaces a group whose password is out of
date, nobody is acquiring from it or has a checkout. -/
def Rotated (w : Procs Shared Client) : (ℕ × Move) ⊕ Event → Prop
  | .inl (i, .build _) => ∀ c ∈ w.procs[i]?, c.pc = .missed → ∀ fingerprint ∈ c.fingerprint,
      w.shared.found c.pool c.user fingerprint = none → ∀ g ∈ w.shared.held c.pool c.user,
      ∀ q ∈ w.procs, q.pc.busy ≠ some g
  | _ => True

instance (w : Procs Shared Client) (l : (ℕ × Move) ⊕ Event) : Decidable (Careful w l) := by
  unfold Careful
  split
  · split <;> infer_instance
  · infer_instance

instance (w : Procs Shared Client) (l : (ℕ × Move) ⊕ Event) : Decidable (Rotated w l) := by
  unfold Rotated
  split <;> infer_instance

end Havuz.PerUser
