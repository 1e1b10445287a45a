import Havuz.Lib.Interleave

/-!
# The circuit breaker

Reference: `havuz-pool/src/breaker.rs`.

Twice: the functions as the code has them (`allows`, `recordSuccess`, `recordFailure`, `reset`), and
the same calls cut into their single atomic operations (`act`), made by any number of callers.
A call nothing interrupts is the function (`allows_alone` and the lemmas after it). The totals that
are only ever counted up are left out. Instants are microseconds since `epoch`, read where the code
reads the clock.
-/

namespace Havuz

open Lib

namespace Breaker

/-- `BreakerState`. -/
inductive State where
  | closed
  | open
  | halfOpen
deriving DecidableEq, Repr

/-- `BreakerConfig`. -/
structure Config where
  failureThreshold : ℕ := 3
  successThreshold : ℕ := 2
  cooldown : ℕ := 10000000
deriving DecidableEq, Repr

end Breaker

/-- `CircuitBreaker`. -/
structure Breaker where
  state : Breaker.State := .closed
  consecutiveFailures : ℕ := 0
  consecutiveSuccesses : ℕ := 0
  openedAt : ℕ := 0
  /-- Set while a half-open probe is in flight. -/
  probeInFlight : Bool := false
deriving DecidableEq, Repr

namespace Breaker

/-- `fetch_add(1) + 1` of an `AtomicU32`. -/
def bump (n : ℕ) : ℕ := (n + 1) % 2 ^ 32

/-! ## The calls -/

section Calls

variable (cfg : Config) (now : ℕ) (b : Breaker)

def cooldownElapsed : Bool := cfg.cooldown ≤ now - b.openedAt

/-- May traffic be sent to this target right now? -/
def allows : Bool × Breaker :=
  match b.state with
  | .closed => (true, b)
  | .halfOpen => if b.probeInFlight then (false, b) else (true, { b with probeInFlight := true })
  | .open =>
      if b.cooldownElapsed cfg now then
        (true, { b with state := .halfOpen, consecutiveSuccesses := 0, probeInFlight := true })
      else (false, b)

def recordSuccess : Breaker :=
  let b := { b with consecutiveFailures := 0, probeInFlight := false }
  if b.state = .halfOpen then
    let successes := bump b.consecutiveSuccesses
    if cfg.successThreshold ≤ successes then { b with state := .closed, consecutiveSuccesses := 0 }
    else { b with consecutiveSuccesses := successes }
  else b

def trip : Breaker := { b with state := .open, openedAt := now, consecutiveFailures := 0 }

def recordFailure : Breaker :=
  let b := { b with consecutiveSuccesses := 0, probeInFlight := false }
  if b.state = .halfOpen then b.trip now
  else
    let failures := bump b.consecutiveFailures
    let b := { b with consecutiveFailures := failures }
    if cfg.failureThreshold ≤ failures then b.trip now else b

/-- Force the breaker closed. -/
def reset : Breaker :=
  { b with state := .closed, consecutiveFailures := 0, consecutiveSuccesses := 0, probeInFlight := false }

@[simp] theorem recordSuccess_probeInFlight : (b.recordSuccess cfg).probeInFlight = false := by
  unfold recordSuccess
  dsimp only
  split
  · split <;> rfl
  · rfl

@[simp] theorem recordFailure_probeInFlight : (b.recordFailure cfg now).probeInFlight = false := by
  unfold recordFailure trip
  dsimp only
  split
  · rfl
  · split <;> rfl

end Calls

/-! ## One atomic operation at a time -/

/-- Where a caller is: what it did last. -/
inductive Pc where
  | ready
  /-- `allows`: loaded half-open. -/
  | sawHalfOpen
  /-- Loaded open. -/
  | sawOpen
  /-- The cooldown has elapsed. -/
  | cooled
  /-- Moved the breaker to half-open. -/
  | moved
  /-- Set the successes to zero. -/
  | zeroed
  /-- `record_success`: the failures are zero. -/
  | succeeding
  /-- The slot is free. -/
  | succeeded
  /-- Loaded half-open. -/
  | countingSuccess
  | closing
  | closed
  /-- `record_failure`: the successes are zero. -/
  | failing
  /-- The slot is free. -/
  | failed
  /-- Loaded closed or open. -/
  | countingFailure
  /-- `trip`: nothing done yet. -/
  | tripping
  | tripped
  | stamped
  /-- `reset`: the state is closed. -/
  | resetting
  | resetFailures
  | resetSuccesses
deriving DecidableEq, Repr

/-- How a request was admitted: by a closed breaker, or as a probe of one that was not. -/
inductive Admission where
  | regular
  | probe
deriving DecidableEq, Repr

/-- A caller, with the number of its admitted requests that are not over yet. -/
structure Caller where
  regular : ℕ := 0
  probes : ℕ := 0
  pc : Pc := .ready
deriving DecidableEq, Repr

/-- What a caller does next. -/
inductive Move where
  | allows
  /-- A request is over, or something else is reported that was never asked for. -/
  | recordSuccess (request : Option Admission)
  | recordFailure (request : Option Admission)
  | reset
  /-- The next operation of the call in progress, at an instant. -/
  | go (now : ℕ)
deriving DecidableEq, Repr

namespace Caller

/-- `allows` returns true. -/
def admitted (c : Caller) : Admission → Caller
  | .regular => { c with regular := c.regular + 1, pc := .ready }
  | .probe => { c with probes := c.probes + 1, pc := .ready }

/-- A request of the caller is over. -/
def finish (c : Caller) (pc : Pc) : Option Admission → Option Caller
  | none => some { c with pc }
  | some .regular => if 0 < c.regular then some { c with regular := c.regular - 1, pc } else none
  | some .probe => if 0 < c.probes then some { c with probes := c.probes - 1, pc } else none

end Caller

/-- One atomic operation of a caller. -/
def act (cfg : Config) (m : Move) (b : Breaker) (c : Caller) : Option (Breaker × Caller) :=
  match c.pc, m with
  | .ready, .allows =>
      match b.state with
      | .closed => some (b, c.admitted .regular)
      | .halfOpen => some (b, { c with pc := .sawHalfOpen })
      | .open => some (b, { c with pc := .sawOpen })
  | .ready, .recordSuccess request =>
      (c.finish .succeeding request).map fun c => ({ b with consecutiveFailures := 0 }, c)
  | .ready, .recordFailure request =>
      (c.finish .failing request).map fun c => ({ b with consecutiveSuccesses := 0 }, c)
  | .ready, .reset => some ({ b with state := .closed }, { c with pc := .resetting })
  | .sawHalfOpen, .go _ =>
      if b.probeInFlight then some (b, { c with pc := .ready })
      else some ({ b with probeInFlight := true }, c.admitted .probe)
  | .sawOpen, .go now =>
      if b.cooldownElapsed cfg now then some (b, { c with pc := .cooled })
      else some (b, { c with pc := .ready })
  | .cooled, .go _ =>
      if b.state = .open then some ({ b with state := .halfOpen }, { c with pc := .moved })
      else some (b, { c with pc := .ready })
  | .moved, .go _ => some ({ b with consecutiveSuccesses := 0 }, { c with pc := .zeroed })
  | .zeroed, .go _ => some ({ b with probeInFlight := true }, c.admitted .probe)
  | .succeeding, .go _ => some ({ b with probeInFlight := false }, { c with pc := .succeeded })
  | .succeeded, .go _ =>
      if b.state = .halfOpen then some (b, { c with pc := .countingSuccess })
      else some (b, { c with pc := .ready })
  | .countingSuccess, .go _ =>
      let successes := bump b.consecutiveSuccesses
      some ({ b with consecutiveSuccesses := successes },
        { c with pc := if cfg.successThreshold ≤ successes then .closing else .ready })
  | .closing, .go _ => some ({ b with state := .closed }, { c with pc := .closed })
  | .closed, .go _ => some ({ b with consecutiveSuccesses := 0 }, { c with pc := .ready })
  | .failing, .go _ => some ({ b with probeInFlight := false }, { c with pc := .failed })
  | .failed, .go _ =>
      if b.state = .halfOpen then some (b, { c with pc := .tripping })
      else some (b, { c with pc := .countingFailure })
  | .countingFailure, .go _ =>
      let failures := bump b.consecutiveFailures
      some ({ b with consecutiveFailures := failures },
        { c with pc := if cfg.failureThreshold ≤ failures then .tripping else .ready })
  | .tripping, .go _ => some ({ b with state := .open }, { c with pc := .tripped })
  | .tripped, .go now => some ({ b with openedAt := now }, { c with pc := .stamped })
  | .stamped, .go _ => some ({ b with consecutiveFailures := 0 }, { c with pc := .ready })
  | .resetting, .go _ => some ({ b with consecutiveFailures := 0 }, { c with pc := .resetFailures })
  | .resetFailures, .go _ =>
      some ({ b with consecutiveSuccesses := 0 }, { c with pc := .resetSuccesses })
  | .resetSuccesses, .go _ => some ({ b with probeInFlight := false }, { c with pc := .ready })
  | _, _ => none

/-- A breaker and `n` callers that have not called it yet. -/
def new (n : ℕ) : Procs Breaker Caller := ⟨{}, List.replicate n {}⟩

/-- One turn of the system. -/
def step (cfg : Config) : Procs Breaker Caller → ℕ × Move → Procs Breaker Caller :=
  Procs.step (act cfg)

/-! ## A call on its own -/

/-- The operations of a call, one after the other and at one instant. -/
def alone (m : Move) (now : ℕ) : List (ℕ × Move) := (0, m) :: List.replicate 7 (0, .go now)

/-- What `allows` hands its caller. -/
def Caller.granted (b : Breaker) (c : Caller) : Bool → Caller
  | false => c
  | true => c.admitted (if b.state = .closed then .regular else .probe)

section Alone

variable (cfg : Config) (now : ℕ) (b : Breaker) {c : Caller}

theorem step_alone (m : Move) (c : Caller) :
    step cfg ⟨b, [c]⟩ (0, m) =
      match act cfg m b c with
      | none => ⟨b, [c]⟩
      | some (b', c') => ⟨b', [c']⟩ := by
  cases hact : act cfg m b c <;> simp [step, Procs.step, hact]

theorem allows_alone (hc : c.pc = .ready) :
    run (step cfg) ⟨b, [c]⟩ (alone .allows now) =
      ⟨(b.allows cfg now).2, [c.granted b (b.allows cfg now).1]⟩ := by
  obtain ⟨regular, probes, pc⟩ := c
  obtain rfl : pc = .ready := hc
  cases hstate : b.state with
  | closed => simp [alone, step_alone, act, allows, Caller.granted, Caller.admitted, hstate]
  | halfOpen =>
      cases hslot : b.probeInFlight <;>
        simp [alone, step_alone, act, allows, Caller.granted, Caller.admitted, hstate, hslot]
  | «open» =>
      cases hcool : b.cooldownElapsed cfg now <;>
        simp [alone, step_alone, act, allows, Caller.granted, Caller.admitted, hstate, hcool]

theorem recordSuccess_alone (hc : c.pc = .ready) :
    run (step cfg) ⟨b, [c]⟩ (alone (.recordSuccess none) now) = ⟨b.recordSuccess cfg, [c]⟩ := by
  obtain ⟨regular, probes, pc⟩ := c
  obtain rfl : pc = .ready := hc
  by_cases hstate : b.state = .halfOpen
  · by_cases henough : cfg.successThreshold ≤ bump b.consecutiveSuccesses <;>
      simp [alone, step_alone, act, recordSuccess, Caller.finish, hstate, henough]
  · simp [alone, step_alone, act, recordSuccess, Caller.finish, hstate]

theorem recordFailure_alone (hc : c.pc = .ready) :
    run (step cfg) ⟨b, [c]⟩ (alone (.recordFailure none) now) = ⟨b.recordFailure cfg now, [c]⟩ := by
  obtain ⟨regular, probes, pc⟩ := c
  obtain rfl : pc = .ready := hc
  by_cases hstate : b.state = .halfOpen
  · simp [alone, step_alone, act, recordFailure, trip, Caller.finish, hstate]
  · by_cases henough : cfg.failureThreshold ≤ bump b.consecutiveFailures <;>
      simp [alone, step_alone, act, recordFailure, trip, Caller.finish, hstate, henough]

theorem reset_alone (hc : c.pc = .ready) :
    run (step cfg) ⟨b, [c]⟩ (alone .reset now) = ⟨b.reset, [c]⟩ := by
  obtain ⟨regular, probes, pc⟩ := c
  obtain rfl : pc = .ready := hc
  simp [alone, step_alone, act, reset]

end Alone

end Breaker

end Havuz
