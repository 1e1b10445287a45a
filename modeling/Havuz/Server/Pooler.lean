import Mathlib
import Havuz.Lib.Run
import Havuz.Listeners

/-!
# The client listeners

Reference: `havuz-server/src/pooler.rs`, up to the shutdown. The pooler looks at the published state whenever it has
changed, closes what is not asked for any more and binds what is missing, one port after the other. A socket is closed
by aborting the accept loop that holds it, and is open until that task has stopped.

Other processes take ports and give them back at any time. A port that the system refuses for another reason counts
as taken.
-/

namespace Havuz.Pooler

open Lib (SortedMap)

/-- What does not change as long as the process runs. -/
structure Setup where
  /-- The port of the admin listener. -/
  reserved : Option ℕ
  /-- The families of this process, by their ids. -/
  families : List Text

/-- An accept loop, and with it an open socket. -/
structure Accept where
  id : ℕ
  port : ℕ
  family : Text
  /-- What the pooler last wrote to the route they share. -/
  route : Option PoolRoute
  aborted : Bool := false
deriving DecidableEq

/-- What the pooler knows of a socket; `accept` is the task. -/
structure Bound where
  family : Text
  pools : List Text
  aliases : List (Text × Text)
  accept : ℕ
deriving DecidableEq

/-- Where `run` is. -/
inductive Phase where
  /-- Subscribed, before the first `reconcile`. -/
  | start
  | waiting
  /-- In the loop of `reconcile`, with these ports to go. -/
  | binding (rest : List (ℕ × Listener))
deriving DecidableEq

structure World where
  published : State
  /-- A state is published, and its revision not yet. -/
  bumping : Bool := false
  /-- There is a revision the pooler has not seen. -/
  changed : Bool := false
  phase : Phase := .start
  bound : SortedMap ℕ Bound := .empty
  tasks : List Accept := []
  nextId : ℕ := 0
  /-- The ports other processes hold. -/
  taken : List ℕ
  /-- Not part of the program: the ports another process held when this pass asked for them. -/
  refused : List ℕ := []
deriving DecidableEq

inductive Event where
  /-- `StateStore::update` stores the state, and then sends the revision. -/
  | publish (s : State)
  | bump
  /-- `reconcile` loads the state and closes. -/
  | load
  /-- It comes to the next port. -/
  | next
  /-- An aborted task has stopped. -/
  | stop (id : ℕ)
  | take (port : ℕ)
  | giveBack (port : ℕ)

namespace World

/-- One of our own sockets is open on this port. -/
def holds (w : World) (port : ℕ) : Bool := w.tasks.any fun t => t.port = port

/-- Whether a socket is kept. -/
def keeps (desired : SortedMap ℕ Listener) (e : ℕ × Bound) : Bool :=
  (desired.get e.1).any fun plan => plan.family = e.2.family

/-- Dropping a `Bound` aborts its task. -/
def abort (ids : List ℕ) (t : Accept) : Accept := if ids.contains t.id then { t with aborted := true } else t

/-- The tasks of the sockets that are not kept. -/
def dropped (w : World) (desired : SortedMap ℕ Listener) : List ℕ :=
  (w.bound.entries.filter fun e => !keeps desired e).map fun e => e.2.accept

/-- Close first. -/
def retain (w : World) (desired : SortedMap ℕ Listener) : World :=
  { w with
    bound := w.bound.filter (keeps desired)
    tasks := w.tasks.map (abort (w.dropped desired)) }

def load (w : World) : World :=
  { w.retain w.published.listeners with
    phase := .binding w.published.listeners.entries
    refused := [] }

/-- Write the route of a task. -/
def reroute (id : ℕ) (route : Option PoolRoute) (t : Accept) : Accept := if t.id = id then { t with route } else t

/-- A live socket only needs its pool list refreshed. -/
def refresh (w : World) (port : ℕ) (plan : Listener) (b : Bound) : World :=
  if b.pools ≠ plan.pools ∨ b.aliases ≠ plan.aliases then
    { w with
      bound := w.bound.insert port { b with pools := plan.pools, aliases := plan.aliases }
      tasks := w.tasks.map (reroute b.accept plan.route) }
  else w

/-- `bind`, and `accept_loop` if that succeeds. -/
def bind (w : World) (port : ℕ) (plan : Listener) : World :=
  -- the address is in use
  if w.holds port then w
  else if w.taken.contains port then { w with refused := port :: w.refused }
  else
    { w with
      bound := w.bound.insert port ⟨plan.family, plan.pools, plan.aliases, w.nextId⟩
      tasks := w.tasks ++ [{ id := w.nextId, port, family := plan.family, route := plan.route }]
      nextId := w.nextId + 1 }

/-- The body of the loop of `reconcile`. -/
def reach (setup : Setup) (w : World) (port : ℕ) (plan : Listener) : World :=
  match w.bound.get port with
  | some b => w.refresh port plan b
  | none =>
      if setup.reserved = some port then w
      else if !setup.families.contains plan.family then w
      else w.bind port plan

end World

def step (setup : Setup) (w : World) : Event → World
  | .publish s => if w.bumping then w else { w with published := s, bumping := true }
  | .bump => if w.bumping then { w with bumping := false, changed := true } else w
  | .load =>
      match w.phase with
      | .start => w.load
      | .waiting => if w.changed then { w.load with changed := false } else w
      | .binding _ => w
  | .next =>
      match w.phase with
      | .binding ((port, plan) :: rest) => { w.reach setup port plan with phase := .binding rest }
      | .binding [] => { w with phase := .waiting }
      | _ => w
  | .stop id => { w with tasks := w.tasks.filter fun t => !(t.id = id && t.aborted) }
  | .take port => if w.holds port || w.taken.contains port then w else { w with taken := port :: w.taken }
  | .giveBack port => { w with taken := w.taken.filter fun p => p ≠ port }

/-- The pooler has seen the last state, and every aborted task has stopped. -/
structure Settled (w : World) : Prop where
  phase : w.phase = .waiting
  bumping : w.bumping = false
  changed : w.changed = false
  stopped : ∀ t ∈ w.tasks, t.aborted = false

instance (w : World) : Decidable (Settled w) :=
  decidable_of_iff
    (w.phase = .waiting ∧ w.bumping = false ∧ w.changed = false ∧ ∀ t ∈ w.tasks, t.aborted = false)
    ⟨fun h => ⟨h.1, h.2.1, h.2.2.1, h.2.2.2⟩, fun h => ⟨h.phase, h.bumping, h.changed, h.stopped⟩⟩

/-- The open sockets are those the configuration asks for: of a family that is there, not on the reserved port, and
not refused because of another process. -/
structure Converged (setup : Setup) (w : World) : Prop where
  ports : ∀ port, (∃ t ∈ w.tasks, t.port = port) ↔
    ∃ plan, w.published.listeners.get port = some plan ∧ plan.family ∈ setup.families ∧
      setup.reserved ≠ some port ∧ port ∉ w.refused
  alone : ∀ t ∈ w.tasks, ∀ t' ∈ w.tasks, t.port = t'.port → t = t'
  notTaken : ∀ t ∈ w.tasks, t.port ∉ w.taken
  serves : ∀ t ∈ w.tasks, ∃ plan route, w.published.listeners.get t.port = some plan ∧ t.family = plan.family ∧
    t.route = some route ∧ route.pools = plan.pools ∧ route.aliases = plan.aliases

/-- When the pooler comes to a port to bind it, none of its own tasks still holds that port. -/
def Prompt (setup : Setup) (w : World) : Event → Prop
  | .next =>
      match w.phase with
      | .binding ((port, plan) :: _) =>
          w.bound.get port = none → setup.reserved ≠ some port → plan.family ∈ setup.families → w.holds port = false
      | _ => True
  | _ => True

instance (setup : Setup) (w : World) (e : Event) : Decidable (Prompt setup w e) :=
  match e with
  | .next =>
      match hphase : w.phase with
      | .binding ((port, plan) :: _) =>
          decidable_of_iff (w.bound.get port = none → setup.reserved ≠ some port → plan.family ∈ setup.families →
            w.holds port = false) (by rw [Prompt, hphase])
      | .binding [] | .start | .waiting => isTrue (by simp [Prompt, hphase])
  | .publish _ | .bump | .load | .stop _ | .take _ | .giveBack _ => isTrue trivial

end Havuz.Pooler
