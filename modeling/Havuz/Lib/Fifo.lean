import Mathlib.Data.List.Basic
import Mathlib.Data.List.Nodup
import Havuz.Lib.Run

/-!
# Bounded first-in first-out sets

A queue without duplicates that holds at most `cap` elements: an insertion into a full one pushes the oldest out.
What happens to the elements is logged, newest first, and the log alone says what is in the queue (`Inside`) and when
it came in (`stamp`). `Fifo.Kept` is the relation between the two, and `run_kept` says that it holds after every
sequence of operations.
-/

namespace Havuz.Lib.Fifo

variable {α : Type*} [DecidableEq α]

inductive Op (α : Type*) where
  | insert (a : α)
  | remove (a : α)
  | clear
deriving DecidableEq, Repr

/-- What happened to an element. -/
inductive Event (α : Type*) where
  | came (a : α)
  | left (a : α)
  | emptied
deriving DecidableEq, Repr

/-! ## The log -/

/-- The element is in, going by the log: it came, and after that it did not leave. -/
def Inside : List (Event α) → α → Prop
  | [], _ => False
  | .came b :: log, a => a = b ∨ Inside log a
  | .left b :: log, a => a ≠ b ∧ Inside log a
  | .emptied :: _, _ => False

/-- When the element came in last. -/
def stamp : List (Event α) → α → ℕ
  | [], _ => 0
  | .came b :: log, a => if a = b then log.length + 1 else stamp log a
  | .left _ :: log, a => stamp log a
  | .emptied :: log, a => stamp log a

theorem stamp_le (log : List (Event α)) (a : α) : stamp log a ≤ log.length := by
  induction log with
  | nil => exact Nat.le_refl 0
  | cons e log ih =>
      cases e with
      | came b =>
          rw [stamp, List.length_cons]
          split <;> omega
      | left b => exact Nat.le_succ_of_le ih
      | emptied => exact Nat.le_succ_of_le ih

/-! ## The queue -/

variable (cap : ℕ)

/-- An element that is not in goes to the back; the oldest makes room for it. -/
def insert (q : List α) (a : α) : List α × Option α :=
  if a ∈ q then (q, none)
  else if cap ≤ q.length then (q.tail ++ [a], q.head?)
  else (q ++ [a], none)

/-- The queue and the log, newest first. -/
structure State (α : Type*) where
  queue : List α := []
  log : List (Event α) := []

def step (s : State α) : Op α → State α
  | .insert a =>
      let (q, out) := insert cap s.queue a
      ⟨q, (if a ∈ s.queue then [] else [.came a]) ++ out.toList.map .left ++ s.log⟩
  | .remove a => ⟨s.queue.filter (· ≠ a), .left a :: s.log⟩
  | .clear => ⟨[], .emptied :: s.log⟩

/-- The queue lists what is in, once each and in the order in which it came, and is within its bound. -/
structure Kept (s : State α) : Prop where
  nodup : s.queue.Nodup
  mem : ∀ a, a ∈ s.queue ↔ Inside s.log a
  sorted : s.queue.Pairwise fun a b => stamp s.log a < stamp s.log b
  bounded : s.queue.length ≤ cap

variable {cap}

theorem kept_nil : Kept cap (⟨[], []⟩ : State α) := ⟨List.nodup_nil, fun _ => ⟨nofun, nofun⟩, .nil, Nat.zero_le _⟩

/-- The oldest leaves. -/
theorem Kept.pop {s : State α} (h : Kept cap s) {old : α} {rest : List α} (hq : s.queue = old :: rest) :
    Kept cap ⟨rest, .left old :: s.log⟩ := by
  have hnodup := h.nodup
  have hsorted := h.sorted
  have hbounded := h.bounded
  rw [hq] at hnodup hsorted hbounded
  obtain ⟨hold, hrest⟩ := List.nodup_cons.mp hnodup
  refine ⟨hrest, fun a => ?_, hsorted.of_cons, Nat.le_of_succ_le hbounded⟩
  rw [Inside, ← h.mem, hq, List.mem_cons]
  constructor
  · intro ha
    exact ⟨fun heq => hold (heq ▸ ha), .inr ha⟩
  · rintro ⟨hne, heq | ha⟩
    · exact absurd heq hne
    · exact ha

/-- A new element comes in where there is room. -/
theorem Kept.push {s : State α} (h : Kept cap s) {a : α} (ha : a ∉ s.queue) (hroom : s.queue.length < cap) :
    Kept cap ⟨s.queue ++ [a], .came a :: s.log⟩ := by
  refine ⟨?_, fun b => ?_, ?_, ?_⟩
  · exact (List.nodup_append_comm).mpr (List.nodup_cons.mpr ⟨ha, h.nodup⟩)
  · rw [Inside, ← h.mem, List.mem_append, List.mem_singleton, or_comm]
  · -- it is the newest
    have hstamp : ∀ b ∈ s.queue, stamp (.came a :: s.log) b = stamp s.log b := fun b hb => by
      have hne : b ≠ a := fun heq => ha (heq ▸ hb)
      rw [stamp, if_neg hne]
    refine List.pairwise_append.mpr ⟨?_, List.pairwise_singleton _ _, fun b hb c hc => ?_⟩
    · exact h.sorted.imp_of_mem fun hb hc hlt => by rwa [hstamp _ hb, hstamp _ hc]
    · rw [List.mem_singleton.mp hc, hstamp b hb, stamp, if_pos rfl]
      exact Nat.lt_succ_of_le (stamp_le s.log b)
  · rw [List.length_append, List.length_singleton]
    exact hroom

theorem Kept.step (hcap : 0 < cap) {s : State α} (h : Kept cap s) (op : Op α) : Kept cap (step cap s op) := by
  cases op with
  | insert a =>
      by_cases ha : a ∈ s.queue
      · simpa [Fifo.step, Fifo.insert, ha] using h
      · by_cases hfull : cap ≤ s.queue.length
        · obtain ⟨old, rest, hq⟩ := List.exists_cons_of_length_pos (Nat.lt_of_lt_of_le hcap hfull)
          have hbounded := h.bounded
          have hrest : a ∉ rest := fun hmem => ha (by rw [hq]; exact List.mem_cons_of_mem old hmem)
          have hpush := (h.pop hq).push hrest (by rw [hq, List.length_cons] at hbounded; exact hbounded)
          have hstep : Fifo.step cap s (.insert a) = ⟨rest ++ [a], .came a :: .left old :: s.log⟩ := by
            rw [Fifo.step, Fifo.insert, if_neg ha, if_neg ha, if_pos hfull, hq]
            rfl
          rw [hstep]
          exact hpush
        · have hstep : Fifo.step cap s (.insert a) = ⟨s.queue ++ [a], .came a :: s.log⟩ := by
            rw [Fifo.step, Fifo.insert, if_neg ha, if_neg ha, if_neg hfull]
            rfl
          rw [hstep]
          exact h.push ha (by omega)
  | remove a =>
      refine ⟨h.nodup.filter _, fun b => ?_, h.sorted.filter _, Nat.le_trans (List.length_filter_le _ _) h.bounded⟩
      rw [Fifo.step, Inside, ← h.mem, List.mem_filter, decide_eq_true_eq, and_comm]
  | clear => exact ⟨List.nodup_nil, fun _ => ⟨nofun, nofun⟩, .nil, Nat.zero_le _⟩

/-- **The queue is what its history says.** -/
theorem run_kept (hcap : 0 < cap) (ops : List (Op α)) : Kept cap (run (Fifo.step cap) ⟨[], []⟩ ops) :=
  run_invariant (fun _ op h => h.step hcap op) kept_nil ops

end Havuz.Lib.Fifo
