import Havuz.Lib.Interleave

/-!
# The pool, one atomic operation at a time

Reference: `havuz-pool/src/pool.rs`.

Any number of tasks call `acquire`, `warmup`, `reap`, `drain`, `close`, `pause` and `resume`, and drop
the checkouts they hold. A move of a task is one atomic operation, one section under the lock of the
idle queue, or one way an await can end; in between, any other task may move. A position in the code
(`Pc`) is named after what was done last.

Counters are integers, so that an underflow is a negative number. The totals that are only ever
counted up are left out, and so are the clock and the closer task: whether a connection is broken,
expired or idle for too long is part of the move that asks. Two fields of the shared state exist for
the proofs alone and no move reads them: `drained` and `late`.
-/

namespace Havuz.Pool

open Lib

/-- `PoolStatus`. -/
inductive Status where
  | active
  | paused
  | draining
  | closed
deriving DecidableEq, Repr

/-- Whether a returned connection is retired. -/
def Status.isDraining : Status → Bool
  | .draining => true
  | .closed => true
  | _ => false

/-- What the tasks share. -/
structure Inner (κ : Type) where
  maxSize : ℕ
  minIdle : ℕ
  /-- Permits nobody holds. -/
  permits : ℕ
  permitsClosed : Bool := false
  /-- The idle queue, front first. -/
  idle : List κ := []
  active : ℤ := 0
  idleCount : ℤ := 0
  waiting : ℤ := 0
  status : Status := .active
  /-- A `drain` or `close` has returned and `resume` was not called since. -/
  drained : Bool := false
  /-- Permits granted while it was so. -/
  late : ℕ := 0
deriving DecidableEq

/-- A live `Checkout`. It owns a permit. -/
structure Checkout (κ : Type) where
  conn : κ
  discard : Bool := false
deriving DecidableEq

/-- Where a task is. -/
inductive Pc (κ : Type) where
  | ready
  /-- `acquire`: the status was active. -/
  | checked
  /-- Counted as waiting, waiting for a permit. -/
  | queued
  /-- Has the permit, still counted as waiting. -/
  | granted
  /-- Refused, timed out or cancelled, still counted as waiting. -/
  | refused
  /-- Has the permit and looks for an idle connection. -/
  | searching
  /-- Took one off the queue. -/
  | popped (c : κ)
  /-- No longer counts it as idle. -/
  | fetched (c : κ)
  /-- The queue was empty: a connection is being opened. -/
  | connecting
  | opened (c : κ)
  /-- It could not be opened; the permit is still held. -/
  | failed
  /-- `Checkout::drop`: no longer counted as active. -/
  | uncounted (co : Checkout κ)
  /-- Found fit, and the pool was not draining. -/
  | shelving (c : κ)
  /-- Counted as idle. -/
  | counted (c : κ)
  /-- Shelved or retired; the permit is still held. -/
  | releasing
  /-- `close`: the status is stored. -/
  | closing
  /-- `drain` or `close`, in front of `close_idle`. -/
  | sweeping
  /-- The queue was emptied of `n` connections. -/
  | swept (n : ℕ)
  /-- `reap` took `n` connections off the queue. -/
  | reaped (n : ℕ)
deriving DecidableEq

/-- A task, with the checkouts it holds. -/
structure Task (κ : Type) where
  mine : List (Checkout κ) := []
  /-- While `warmup` runs: how many more connections it wants. -/
  warm : Option ℕ := none
  /-- What `warmup` has acquired. -/
  held : List (Checkout κ) := []
  pc : Pc κ := .ready
deriving DecidableEq

/-- What a task does next, with what is left to chance. -/
inductive Move (κ : Type) where
  | acquire
  | warmup
  | drop (i : ℕ)
  | discard (i : ℕ)
  | reap (unfit tooIdle : κ → Bool)
  | drain
  | close
  | pause
  | resume
  /-- The next operation of the call in progress. -/
  | go
  /-- The wait for a permit times out. -/
  | timeout
  /-- The future is dropped at an await. -/
  | cancel
  /-- The connection in hand is looked at: is it broken or expired? -/
  | judge (unfit : Bool)
  /-- The connect ends, in time or not. -/
  | connect (c : Option κ)

variable {κ : Type}

/-- The loop of `reap`: what is kept, and how many are retired. -/
def reapLoop (unfit tooIdle : κ → Bool) : ℕ → List κ → List κ × ℕ
  | _, [] => ([], 0)
  | budget, c :: rest =>
      if unfit c then
        let r := reapLoop unfit tooIdle budget rest
        (r.1, r.2 + 1)
      else if tooIdle c ∧ 0 < budget then
        let r := reapLoop unfit tooIdle (budget - 1) rest
        (r.1, r.2 + 1)
      else
        let r := reapLoop unfit tooIdle budget rest
        (c :: r.1, r.2)

namespace Task

/-- An `acquire` returns a checkout, to the caller or to the `warmup` it is part of. -/
def receive (co : Checkout κ) (t : Task κ) : Task κ :=
  match t.warm with
  | some (k + 1) => { t with pc := .ready, warm := some k, held := t.held ++ [co] }
  | _ => { t with pc := .ready, mine := t.mine ++ [co] }

/-- An `acquire` fails; a `warmup` it is part of gives up. -/
def miss (t : Task κ) : Task κ := { t with pc := .ready, warm := t.warm.map fun _ => 0 }

end Task

/-- The first operation of `acquire`: look at the status. -/
def startAcquire (s : Inner κ) (t : Task κ) : Inner κ × Task κ :=
  if s.status = .active then (s, { t with pc := .checked }) else (s, t.miss)

/-- The moves of a task between two calls. -/
def begin (m : Move κ) (s : Inner κ) (t : Task κ) : Option (Inner κ × Task κ) :=
  match m with
  | .acquire => some (startAcquire s t)
  | .warmup => if s.minIdle = 0 then none else some (s, { t with warm := some s.minIdle })
  | .drop i =>
      match t.mine[i]? with
      | none => none
      | some co =>
          some ({ s with active := s.active - 1 },
            { t with mine := t.mine.eraseIdx i, pc := .uncounted co })
  | .discard i =>
      match t.mine[i]? with
      | none => none
      | some co => some (s, { t with mine := t.mine.set i { co with discard := true } })
  | .reap unfit tooIdle =>
      let r := reapLoop unfit tooIdle (s.idle.length - s.minIdle) s.idle
      some ({ s with idle := r.1 }, { t with pc := .reaped r.2 })
  | .drain => some ({ s with status := .draining }, { t with pc := .sweeping })
  | .close => some ({ s with status := .closed }, { t with pc := .closing })
  | .pause => some ({ s with status := .paused }, t)
  | .resume => some ({ s with status := .active, drained := false }, t)
  | _ => none

/-- The moves of a `warmup` between two acquires: make the next one or, at the end, drop what it
holds. -/
def warm (k : ℕ) (s : Inner κ) (t : Task κ) : Option (Inner κ × Task κ) :=
  match k, t.held with
  | _ + 1, _ => some (startAcquire s t)
  | 0, [] => some (s, { t with warm := none })
  | 0, co :: rest =>
      some ({ s with active := s.active - 1 }, { t with held := rest, pc := .uncounted co })

/-- One move of a task. -/
def act (m : Move κ) (s : Inner κ) (t : Task κ) : Option (Inner κ × Task κ) :=
  match t.pc, m with
  | .ready, m =>
      match t.warm with
      | none => begin m s t
      | some k =>
          match m with
          | .go => warm k s t
          | _ => none
  | .checked, .go => some ({ s with waiting := s.waiting + 1 }, { t with pc := .queued })
  | .queued, .go =>
      if s.permitsClosed then some (s, { t with pc := .refused })
      else if 0 < s.permits then
        some ({ s with
          permits := s.permits - 1
          late := s.late + if s.drained then 1 else 0 }, { t with pc := .granted })
      else none
  | .queued, .timeout => some (s, { t with pc := .refused })
  | .queued, .cancel => some (s, { t with pc := .refused })
  | .granted, .go => some ({ s with waiting := s.waiting - 1 }, { t with pc := .searching })
  -- A permit that was handed over to a future nobody polls any more goes back.
  | .granted, .cancel => some ({ s with permits := s.permits + 1 }, { t with pc := .refused })
  | .refused, .go => some ({ s with waiting := s.waiting - 1 }, t.miss)
  | .searching, .go =>
      match s.idle with
      | [] => some (s, { t with pc := .connecting })
      | c :: rest => some ({ s with idle := rest }, { t with pc := .popped c })
  | .popped c, .go => some ({ s with idleCount := s.idleCount - 1 }, { t with pc := .fetched c })
  | .fetched c, .judge unfit =>
      if unfit then some (s, { t with pc := .searching })
      else some ({ s with active := s.active + 1 }, t.receive ⟨c, false⟩)
  | .connecting, .connect (some c) => some (s, { t with pc := .opened c })
  | .connecting, .connect none => some (s, { t with pc := .failed })
  | .connecting, .cancel => some (s, { t with pc := .failed })
  | .opened c, .go => some ({ s with active := s.active + 1 }, t.receive ⟨c, false⟩)
  | .failed, .go => some ({ s with permits := s.permits + 1 }, t.miss)
  | .uncounted co, .judge unfit =>
      if co.discard || unfit || s.status.isDraining then some (s, { t with pc := .releasing })
      else some (s, { t with pc := .shelving co.conn })
  | .shelving c, .go => some ({ s with idleCount := s.idleCount + 1 }, { t with pc := .counted c })
  | .counted c, .go => some ({ s with idle := s.idle ++ [c] }, { t with pc := .releasing })
  | .releasing, .go => some ({ s with permits := s.permits + 1 }, { t with pc := .ready })
  | .closing, .go => some ({ s with permitsClosed := true }, { t with pc := .sweeping })
  | .sweeping, .go => some ({ s with idle := [] }, { t with pc := .swept s.idle.length })
  | .swept n, .go =>
      some ({ s with idleCount := s.idleCount - n, drained := true }, { t with pc := .ready })
  | .reaped n, .go => some ({ s with idleCount := s.idleCount - n }, { t with pc := .ready })
  | _, _ => none

/-- A new pool and `n` tasks that have not called it yet. -/
def new (κ : Type) (maxSize minIdle n : ℕ) : Procs (Inner κ) (Task κ) :=
  ⟨{ maxSize, minIdle, permits := maxSize }, List.replicate n {}⟩

/-- One turn of the system. -/
def step : Procs (Inner κ) (Task κ) → ℕ × Move κ → Procs (Inner κ) (Task κ) := Procs.step act

end Havuz.Pool
