import Havuz.Lib.Interleave

/-!
# Cancellation keys

Reference: `havuz-pg/src/cancel.rs`, and in `havuz-pg/src/txn.rs` every place that takes a checkout,
drops one or calls `retarget_cancel`.

Any number of transaction-mode sessions share the pools and the registry. A move of a session is one
action: an acquire, a retarget, a drop of the checkout, the return of the relay. A connection is a
number, given out when it is opened, and `target` says what its server calls it. What a message does
and what its answer says is left to the move that follows.
-/

namespace Havuz.Cancel

open Lib

variable {T : Type}

/-! ## The registry -/

/-- `CancelRegistry`. A key is known by its process id, which is a counter. -/
structure CancelRegistry (T : Type) where
  entries : ℕ → Option (Option T) := fun _ => none
  nextId : ℕ := 1

namespace CancelRegistry

/-- Issue a fresh key for a client session, pointing at nothing yet. -/
def scope (r : CancelRegistry T) : ℕ × CancelRegistry T :=
  (r.nextId, ⟨Function.update r.entries r.nextId (some none), r.nextId + 1⟩)

def retarget (r : CancelRegistry T) (key : ℕ) (target : Option T) : CancelRegistry T :=
  match r.entries key with
  | some _ => { r with entries := Function.update r.entries key (some target) }
  | none => r

def unregister (r : CancelRegistry T) (key : ℕ) : CancelRegistry T :=
  { r with entries := Function.update r.entries key none }

/-- The backend a key currently points at, if any. -/
def lookup (r : CancelRegistry T) (key : ℕ) : Option T := (r.entries key).join

end CancelRegistry

/-! ## Sessions -/

/-- What the sessions share. -/
structure Shared (T : Type) where
  registry : CancelRegistry T := {}
  /-- Connections on the shelf, of all pools. -/
  idle : List ℕ := []
  /-- How many connections were ever opened. -/
  opened : ℕ := 0

/-- Where a session is. -/
inductive Pc where
  | starting
  /-- Holds the startup checkout; no key was issued yet. -/
  | greeting
  | greeted
  /-- Waits for a message, with or without a backend. -/
  | ready
  /-- Has acquired a backend and syncs its parameters. -/
  | acquired
  /-- Made it the held one; `retarget_cancel` comes next. -/
  | installed
  /-- A message is forwarded and answered. -/
  | forwarding
  /-- Has dropped the checkout; `retarget_cancel` comes next. -/
  | released
  /-- Has dropped a broken one; `retarget_cancel` comes next. -/
  | lost
  /-- Goes on without a backend, or starts over on the primary. -/
  | recovering
  /-- Has acquired the primary; `retarget_cancel` comes next. -/
  | reacquired
  | replaying
  /-- The loop has ended; `retarget_cancel` comes next. -/
  | leaving
  | left
  /-- The relay has returned; the scope is still alive. -/
  | returned
  | gone
deriving DecidableEq, Repr

structure Session where
  key : Option ℕ := none
  /-- The checkout it owns, in whichever variable. -/
  checkout : Option ℕ := none
  pc : Pc := .starting
deriving DecidableEq, Repr

inductive Move where
  /-- A pool hands out a connection from its shelf, or a new one. -/
  | acquire (shelved : Option ℕ)
  | go
  /-- The answer came, and the session keeps its backend. -/
  | keep
  /-- The answer came, and the session is releasable. -/
  | release
  /-- A write or a read failed: the checkout is discarded and dropped. -/
  | lose
  /-- The client is gone or is sent away: the loop ends. -/
  | stop
  /-- The relay returns; the checkout is dropped with it. -/
  | leave (discard : Bool)
deriving DecidableEq, Repr

/-- A pool hands out a connection. -/
def take (sh : Shared T) : Option ℕ → Option (ℕ × Shared T)
  | none => some (sh.opened, { sh with opened := sh.opened + 1 })
  | some i =>
      match sh.idle[i]? with
      | none => none
      | some b => some (b, { sh with idle := sh.idle.eraseIdx i })

/-- `Checkout::drop`: the connection goes back on the shelf unless it is discarded. -/
def give (sh : Shared T) (discard : Bool) : Option ℕ → Shared T
  | none => sh
  | some b => if discard then sh else { sh with idle := sh.idle ++ [b] }

def acquire (i : Option ℕ) (pc : Pc) (sh : Shared T) (s : Session) : Option (Shared T × Session) :=
  match s.checkout with
  | some _ => none
  | none =>
      match take sh i with
      | none => none
      | some (b, sh) => some (sh, { s with checkout := some b, pc })

/-- The session drops its checkout. -/
def drop (discard : Bool) (pc : Pc) (sh : Shared T) (s : Session) : Shared T × Session :=
  (give sh discard s.checkout, { s with checkout := none, pc })

section Act

variable (target : ℕ → Option T)

/-- `retarget_cancel`: point the key of the session at the backend it is holding. -/
def retargetCancel (pc : Pc) (sh : Shared T) (s : Session) (held : Option ℕ) : Shared T × Session :=
  match s.key with
  | none => (sh, { s with pc })
  | some key =>
      ({ sh with registry := sh.registry.retarget key (held.bind target) }, { s with pc })

/-- One action of a session. -/
def act (m : Move) (sh : Shared T) (s : Session) : Option (Shared T × Session) :=
  match s.pc, m with
  | .starting, .acquire i => acquire i .greeting sh s
  | .greeting, .go =>
      some ({ sh with registry := sh.registry.scope.2 },
        { s with key := some sh.registry.scope.1, pc := .greeted })
  | .greeted, .go => some (drop false .ready sh s)
  | .greeted, .leave discard => some (drop discard .returned sh s)
  | .ready, .acquire i => acquire i .acquired sh s
  | .ready, .go => if s.checkout.isSome then some (sh, { s with pc := .forwarding }) else none
  | .ready, .stop => some (sh, { s with pc := .leaving })
  -- The acquire failed: there is nothing to drop.
  | .ready, .leave _ => if s.checkout.isSome then none else some (sh, { s with pc := .returned })
  | .acquired, .go => some (sh, { s with pc := .installed })
  | .acquired, .leave discard => some (drop discard .returned sh s)
  | .installed, .go => some (retargetCancel target .forwarding sh s s.checkout)
  -- No answer is expected yet.
  | .forwarding, .go => some (sh, { s with pc := .ready })
  | .forwarding, .keep => some (retargetCancel target .ready sh s s.checkout)
  | .forwarding, .release => some (drop false .released sh s)
  | .forwarding, .lose => some (drop true .lost sh s)
  | .forwarding, .leave discard => some (drop discard .returned sh s)
  | .released, .go => some (retargetCancel target .ready sh s s.checkout)
  | .lost, .go => some (retargetCancel target .recovering sh s none)
  | .recovering, .go => some (sh, { s with pc := .ready })
  | .recovering, .leave _ => some (sh, { s with pc := .returned })
  | .recovering, .acquire i => acquire i .reacquired sh s
  | .reacquired, .go => some (retargetCancel target .replaying sh s s.checkout)
  | .replaying, .keep => some (retargetCancel target .ready sh s s.checkout)
  | .replaying, .release => some (drop false .released sh s)
  | .replaying, .leave discard => some (drop discard .returned sh s)
  | .leaving, .go => some (retargetCancel target .left sh s none)
  | .left, .leave discard => some (drop discard .returned sh s)
  | .returned, .go =>
      match s.key with
      | none => some (sh, { s with pc := .gone })
      | some key => some ({ sh with registry := sh.registry.unregister key }, { s with pc := .gone })
  | _, _ => none

/-- One turn of the system. -/
def step : Procs (Shared T) Session → ℕ × Move → Procs (Shared T) Session := Procs.step (act target)

end Act

/-- No connection is open yet, and `n` clients are about to connect. -/
def new (T : Type) (n : ℕ) : Procs (Shared T) Session := ⟨{}, List.replicate n {}⟩

end Havuz.Cancel
