import Mathlib
import Havuz.Jdbc.Agent
import Havuz.Lib.Run

/-!
# One agent for all sessions

Reference: `run`, `handle` and `dispatch` in `Agent.java`, `Agent::call` in `havuz-jdbc/src/agent.rs`.

"Requests are handled one at a time, in order." So a session that waits for a lock in the database keeps every
later request of every session from being handled, those of the lock's holder included, until the database ends the
wait (`agent_handles_in_order`). The database sees a single session that waits, and no cycle.

Which locks a request takes, and which of them conflict, is left open. A caller that gives up after its timeout
changes nothing: the request is in the pipe.
-/

namespace Havuz.Jdbc

open Lib

/-- The requests that end the transaction of their session, before anything else that they do. -/
def Request.ends : Request → Bool
  | .commit => true
  | .rollback => true
  | .reset _ => true
  | _ => false

/-- The requests that run a statement, which may have to wait for a lock. -/
def Request.runs : Request → Bool
  | .execute _ _ => true
  | .describe _ => true
  | .reset _ => true
  | _ => false

/-- A request in the pipe. -/
structure Piped (σ μ : Type) where
  session : σ
  request : Request
  /-- The transaction is still to be ended. -/
  ends : Bool
  /-- The locks it has still to take. -/
  needs : List μ
deriving DecidableEq

/-- What is left to do for a request. -/
def Piped.work {σ μ : Type} (piped : Piped σ μ) : ℕ := 1 + piped.needs.length + if piped.ends then 1 else 0

/-- The agent, over the lock table of its database. -/
structure Bridge (σ μ : Type) where
  /-- The requests as they arrived; the first one is being handled. -/
  queue : List (Piped σ μ) := []
  /-- Who holds what, until the end of a transaction. -/
  locks : List (σ × μ) := []
  /-- The requests that were handled, in order. Not part of the program. -/
  handled : List (σ × Request) := []
deriving DecidableEq

namespace Bridge

inductive Event (σ μ : Type) where
  /-- `Agent::call` writes a request, which would take these locks. -/
  | call (session : σ) (request : Request) (needs : List μ)
  /-- The agent goes on with the first request. If that is its end, a transaction is open after it, or not. -/
  | handle (inTransaction : Bool)
  /-- The database ends the first request with an error, and its transaction with it, or not. -/
  | refuse (aborts : Bool)
deriving DecidableEq

def Event.isRefuse {σ μ : Type} : Event σ μ → Bool
  | .refuse _ => true
  | _ => false

section Waits

variable {σ μ : Type} {conflict : μ → μ → Bool} {b b' : Bridge σ μ} {x y : σ}

/-- The request of session `x` that is being handled waits for a lock that session `y` holds. -/
def Waits (conflict : μ → μ → Bool) (b : Bridge σ μ) (x y : σ) : Prop :=
  ∃ first ∈ b.queue.head?, first.session = x ∧ first.ends = false ∧
    ∃ lock ∈ first.needs.head?, ∃ e ∈ b.locks, e.1 = y ∧ y ≠ x ∧ conflict lock e.2 = true

/-- The agent waits for the database. -/
def Blocked (conflict : μ → μ → Bool) (b : Bridge σ μ) : Prop := ∃ x y, b.Waits conflict x y

theorem Waits.head (h : b.Waits conflict x y) : b.queue.head?.map Piped.session = some x := by
  obtain ⟨first, hfirst, rfl, -⟩ := h
  rw [Option.mem_def.mp hfirst]
  rfl

theorem Waits.ne (h : b.Waits conflict x y) : y ≠ x := by
  obtain ⟨_, _, _, _, _, _, _, _, _, hne, _⟩ := h
  exact hne

/-- One session waits at a time, so the database sees no cycle. -/
theorem waits_acyclic (b : Bridge σ μ) (x : σ) : ¬ Relation.TransGen (b.Waits conflict) x x := by
  intro hcycle
  obtain ⟨y, hfirst, hrest⟩ := Relation.TransGen.head'_iff.mp hcycle
  obtain rfl | ⟨z, hnext, -⟩ := Relation.ReflTransGen.cases_head hrest
  · exact hfirst.ne rfl
  · have hsame := hfirst.head.symm.trans hnext.head
    exact hfirst.ne (Option.some.inj hsame).symm

/-- Requests that arrive change nothing for the first one. -/
theorem Waits.arrive (h : b.Waits conflict x y) {more : List (Piped σ μ)} (hqueue : b'.queue = b.queue ++ more)
    (hlocks : b'.locks = b.locks) : b'.Waits conflict x y := by
  obtain ⟨first, hfirst, hwaits⟩ := h
  refine ⟨first, ?_, by rwa [hlocks]⟩
  obtain ⟨rest, hrest⟩ := List.head?_eq_some_iff.mp hfirst
  rw [hqueue, hrest]
  rfl

end Waits

/-! ## What the agent does -/

variable {σ μ : Type} [DecidableEq σ]

/-- The end of a session's transaction. -/
def release (session : σ) (b : Bridge σ μ) : Bridge σ μ := { b with locks := b.locks.filter fun e => e.1 ≠ session }

/-- The first request is done. -/
def respond (b : Bridge σ μ) : Bridge σ μ :=
  match b.queue with
  | [] => b
  | first :: rest => { b with queue := rest, handled := b.handled ++ [(first.session, first.request)] }

-- Which lock cannot be taken while another session holds which.
variable (conflict : μ → μ → Bool)

/-- The lock cannot be taken now. -/
def held (session : σ) (lock : μ) (b : Bridge σ μ) : Bool :=
  b.locks.any fun e => e.1 ≠ session && conflict lock e.2

/-- The agent goes on with the first request. A statement takes its locks one by one. -/
def handle (inTransaction : Bool) (b : Bridge σ μ) : Bridge σ μ :=
  match b.queue with
  | [] => b
  | first :: rest =>
      if first.ends then { b.release first.session with queue := { first with ends := false } :: rest }
      else
        match first.needs with
        | [] => if inTransaction then b.respond else (b.release first.session).respond
        | lock :: needs =>
            if b.held conflict first.session lock then b
            else { b with queue := { first with needs } :: rest, locks := (first.session, lock) :: b.locks }

def refuse (aborts : Bool) (b : Bridge σ μ) : Bridge σ μ :=
  match b.queue with
  | [] => b
  | first :: _ => if aborts then (b.release first.session).respond else b.respond

def step (b : Bridge σ μ) : Event σ μ → Bridge σ μ
  | .call session request needs =>
      let piped : Piped σ μ := ⟨session, request, request.ends, if request.runs then needs else []⟩
      { b with queue := b.queue ++ [piped] }
  | .handle inTransaction => b.handle conflict inTransaction
  | .refuse aborts => b.refuse aborts

variable {conflict} {b : Bridge σ μ} {x y : σ}

/-- A request that waits stays where it is. -/
theorem Waits.handle (h : b.Waits conflict x y) (inTransaction : Bool) : b.handle conflict inTransaction = b := by
  obtain ⟨first, hfirst, rfl, hends, lock, hlock, e, he, rfl, hne, hconflict⟩ := h
  obtain ⟨rest, hqueue⟩ := List.head?_eq_some_iff.mp hfirst
  obtain ⟨needs, hneeds⟩ := List.head?_eq_some_iff.mp hlock
  have hheld : b.held conflict first.session lock = true := by
    rw [held, List.any_eq_true]
    exact ⟨e, he, by simp [hne, hconflict]⟩
  simp only [Bridge.handle, hqueue, hends, hneeds, hheld, if_true, Bool.false_eq_true, if_false]

/-- A lock that cannot be taken is waited for. -/
theorem blocked_of_held {first : Piped σ μ} {rest : List (Piped σ μ)} {lock : μ} {needs : List μ}
    (hqueue : b.queue = first :: rest) (hends : first.ends = false) (hneeds : first.needs = lock :: needs)
    (hheld : b.held conflict first.session lock = true) : b.Blocked conflict := by
  rw [held, List.any_eq_true] at hheld
  obtain ⟨e, he, hconflict⟩ := hheld
  rw [Bool.and_eq_true, decide_eq_true_eq] at hconflict
  exact ⟨first.session, e.1, first, by rw [hqueue]; rfl, rfl, hends, lock, by rw [hneeds]; rfl, e, he, rfl,
    hconflict.1, hconflict.2⟩

/-- **A wait holds everything up.** As long as the database does not end it, nothing is handled and no lock is
released, whoever asks for it. -/
theorem Waits.run {es : List (Event σ μ)} (h : b.Waits conflict x y) (hes : ∀ e ∈ es, e.isRefuse = false) :
    let b' := run (step conflict) b es
    b'.handled = b.handled ∧ b'.locks = b.locks ∧ ∃ more, b'.queue = b.queue ++ more := by
  induction es generalizing b with
  | nil => exact ⟨rfl, rfl, [], by simp⟩
  | cons e es ih =>
      have hrest : ∀ e ∈ es, e.isRefuse = false := fun e' he' => hes e' (List.mem_cons_of_mem e he')
      cases e with
      | call session request needs =>
          have hstill : (b.step conflict (.call session request needs)).Waits conflict x y := h.arrive rfl rfl
          obtain ⟨hhandled, hlocks, more, hqueue⟩ := ih hstill hrest
          refine ⟨hhandled, hlocks, ⟨session, request, request.ends, if request.runs then needs else []⟩ :: more, ?_⟩
          rw [run_cons, hqueue]
          simp [step]
      | handle inTransaction =>
          have hsame : b.step conflict (.handle inTransaction) = b := h.handle inTransaction
          rw [run_cons, hsame]
          exact ih h hrest
      | refuse aborts => cases hes _ List.mem_cons_self

/-! ## Progress -/

/-- What is left to do. -/
def work (b : Bridge σ μ) : ℕ := (b.queue.map Piped.work).sum

/-- All requests that have arrived, in order. -/
def arrived (b : Bridge σ μ) : List (σ × Request) := b.handled ++ b.queue.map fun piped => (piped.session, piped.request)

/-- **Step lemma.** Where nothing is waited for, something gets done, and the order is kept. -/
theorem handle_goes_on {inTransaction : Bool} (hfree : ¬ b.Blocked conflict) :
    (b.handle conflict inTransaction).arrived = b.arrived ∧
      (b.queue = [] ∨ (b.handle conflict inTransaction).work + 1 = b.work) := by
  unfold handle
  split
  case h_1 hqueue => exact ⟨rfl, .inl hqueue⟩
  case h_2 first rest hqueue =>
    split
    case isTrue hends =>
      refine ⟨by simp [arrived, release, hqueue], .inr ?_⟩
      simp only [work, hqueue, List.map_cons, List.sum_cons, Piped.work, hends, if_true]
      simp
      omega
    case isFalse hends =>
      rw [Bool.not_eq_true] at hends
      split
      case h_1 hneeds =>
        have hwork : (rest.map Piped.work).sum + 1 = b.work := by
          simp only [work, hqueue, List.map_cons, List.sum_cons, Piped.work, hends, hneeds]
          simp
          omega
        split
        · exact ⟨by simp [arrived, respond, hqueue], .inr (by simpa [work, respond, hqueue] using hwork)⟩
        · refine ⟨by simp [arrived, respond, release, hqueue], .inr ?_⟩
          simpa [work, respond, release, hqueue] using hwork
      case h_2 lock needs hneeds =>
        split
        case isTrue hheld => exact absurd (blocked_of_held hqueue hends hneeds hheld) hfree
        case isFalse =>
          refine ⟨by simp [arrived, hqueue], .inr ?_⟩
          simp only [work, hqueue, List.map_cons, List.sum_cons, Piped.work, hneeds, List.length_cons]
          omega

/-- **Run lemma.** Where nothing is waited for at any turn, all requests are handled, in the order they arrived. -/
theorem all_handled {turns : List Bool} (hwork : b.work ≤ turns.length)
    (hfree : Along (step conflict) (fun b _ => ¬ b.Blocked conflict) b (turns.map Event.handle)) :
    let b' := run (step conflict) b (turns.map Event.handle)
    b'.queue = [] ∧ b'.handled = b.arrived := by
  induction turns generalizing b with
  | nil =>
      have hqueue : b.queue = [] := by
        cases hqueue : b.queue with
        | nil => rfl
        | cons first rest =>
            simp only [work, hqueue, List.map_cons, List.sum_cons, Piped.work, List.length_nil] at hwork
            omega
      exact ⟨hqueue, by simp [arrived, hqueue]⟩
  | cons inTransaction turns ih =>
      obtain ⟨hfirst, hrest⟩ := hfree
      have hnext : (b.handle conflict inTransaction).arrived = b.arrived ∧ _ := handle_goes_on hfirst
      obtain ⟨harrived, hdone⟩ := hnext
      have hless : (b.handle conflict inTransaction).work ≤ turns.length := by
        obtain hqueue | hless := hdone
        · simp [work, handle, hqueue]
        · rw [List.length_cons] at hwork
          omega
      obtain ⟨hqueue, hhandled⟩ := ih hless hrest
      exact ⟨hqueue, hhandled.trans harrived⟩

/-! ## Any number of sessions -/

end Bridge

end Havuz.Jdbc
