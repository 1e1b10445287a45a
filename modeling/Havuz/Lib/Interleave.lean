import Mathlib.Algebra.BigOperators.Group.List.Basic
import Mathlib.Algebra.Order.BigOperators.Group.List
import Mathlib.Data.List.Nodup
import Mathlib.Tactic.Linarith
import Havuz.Lib.Run

/-!
# Processes around a shared state

Any number of processes take turns; a turn is one indivisible move of one of them, which reads and
writes the shared state and its own. Quantities that are spread over the processes are sums over the
list of them (`total`), and `total_set` says what a move does to such a sum.
-/

namespace Havuz.Lib

variable {S P C : Type*}

/-- A shared state and the processes around it. -/
structure Procs (S P : Type*) where
  shared : S
  procs : List P
deriving DecidableEq

/-- Process `l.1` makes the move `l.2`. A move that cannot be made changes nothing. -/
def Procs.step (act : C → S → P → Option (S × P)) (w : Procs S P) (l : ℕ × C) : Procs S P :=
  match w.procs[l.1]? with
  | none => w
  | some p =>
      match act l.2 w.shared p with
      | none => w
      | some (s, p') => ⟨s, w.procs.set l.1 p'⟩

/-- All that a turn can do. -/
theorem Procs.step_cases (act : C → S → P → Option (S × P)) (w : Procs S P) (l : ℕ × C) :
    w.step act l = w ∨ ∃ p s p', w.procs[l.1]? = some p ∧ act l.2 w.shared p = some (s, p') ∧
      w.step act l = ⟨s, w.procs.set l.1 p'⟩ := by
  cases hp : w.procs[l.1]? with
  | none => exact .inl (by rw [step, hp])
  | some p =>
      cases hact : act l.2 w.shared p with
      | none => exact .inl (by simp only [step, hp, hact])
      | some r => exact .inr ⟨p, r.1, r.2, rfl, hact, by simp only [step, hp, hact]⟩

theorem getElem?_set_self_of {ps : List P} {i : ℕ} {p : P} (p' : P) (h : ps[i]? = some p) :
    (ps.set i p')[i]? = some p' := by
  have hlt := (List.getElem?_eq_some_iff.mp h).1
  simp [hlt]

theorem getElem?_set_cases {ps : List P} {i j : ℕ} {p q : P} (h : (ps.set i p)[j]? = some q) :
    (j = i ∧ q = p) ∨ (j ≠ i ∧ ps[j]? = some q) := by
  rw [List.getElem?_set] at h
  split at h
  case isTrue hij =>
    split at h
    · exact .inl ⟨hij.symm, (Option.some.inj h).symm⟩
    · cases h
  case isFalse hij => exact .inr ⟨fun heq => hij heq.symm, h⟩

/-- A turn of one process leaves every other one as it was. -/
theorem Procs.step_other (act : C → S → P → Option (S × P)) (w : Procs S P) (l : ℕ × C) {j : ℕ}
    (hne : j ≠ l.1) : (w.step act l).procs[j]? = w.procs[j]? := by
  obtain hsame | ⟨p, s, p', -, -, hstep⟩ := w.step_cases act l
  · rw [hsame]
  · rw [hstep, List.getElem?_set_ne (Ne.symm hne)]

/-! ## Sums over the processes -/

/-- The sum of a quantity over the processes. -/
def total (f : P → ℕ) (ps : List P) : ℕ := (ps.map f).sum

@[simp] theorem total_nil (f : P → ℕ) : total f [] = 0 := rfl

@[simp] theorem total_cons (f : P → ℕ) (p : P) (ps : List P) :
    total f (p :: ps) = f p + total f ps := by
  simp [total]

/-- A move of one process changes a sum by what it changes for that process. -/
theorem total_set (f : P → ℕ) {ps : List P} {i : ℕ} {p : P} (p' : P) (h : ps[i]? = some p) :
    total f (ps.set i p') + f p = total f ps + f p' := by
  induction ps generalizing i with
  | nil => simp at h
  | cons q ps ih =>
      cases i with
      | zero =>
          rw [List.getElem?_cons_zero, Option.some.injEq] at h
          rw [List.set_cons_zero, total_cons, total_cons, h]
          omega
      | succ i =>
          rw [List.getElem?_cons_succ] at h
          rw [List.set_cons_succ, total_cons, total_cons]
          have hrest := ih h
          omega

theorem total_le {f g : P → ℕ} (h : ∀ p, f p ≤ g p) (ps : List P) : total f ps ≤ total g ps :=
  List.sum_le_sum fun p _ => h p

theorem le_total (f : P → ℕ) {p : P} {ps : List P} (h : p ∈ ps) : f p ≤ total f ps :=
  List.single_le_sum (fun _ _ => Nat.zero_le _) _ (List.mem_map_of_mem h)

theorem total_congr {f g : P → ℕ} {ps : List P} (h : ∀ p ∈ ps, f p = g p) :
    total f ps = total g ps := by
  rw [total, total, List.map_congr_left h]

theorem total_eq_zero {f : P → ℕ} {ps : List P} (h : ∀ p ∈ ps, f p = 0) : total f ps = 0 := by
  apply List.sum_eq_zero
  intro n hn
  obtain ⟨p, hp, rfl⟩ := List.mem_map.mp hn
  exact h p hp

theorem total_replicate (f : P → ℕ) (n : ℕ) (p : P) : total f (List.replicate n p) = n * f p := by
  simp [total]

/-- Different processes that contribute something each are no more than the sum. -/
theorem length_le_total {f : P → ℕ} {is : List ℕ} {ps : List P} (hnodup : is.Nodup)
    (h : ∀ i ∈ is, ∃ p, ps[i]? = some p ∧ 1 ≤ f p) : is.length ≤ total f ps := by
  induction ps generalizing is with
  | nil =>
      cases is with
      | nil => rfl
      | cons i is =>
          obtain ⟨p, hp, -⟩ := h i List.mem_cons_self
          simp at hp
  | cons q ps ih =>
      -- without the first process, the others are one place further to the front
      have hrest : ((is.erase 0).map Nat.pred).length ≤ total f ps := ih ?_ ?_
      · rw [List.length_map] at hrest
        rw [total_cons]
        by_cases hzero : 0 ∈ is
        · obtain ⟨p, hp, hf⟩ := h 0 hzero
          rw [List.getElem?_cons_zero, Option.some.injEq] at hp
          subst hp
          rw [List.length_erase_of_mem hzero] at hrest
          omega
        · rw [List.erase_of_not_mem hzero] at hrest
          omega
      · refine List.Nodup.map_on ?_ (hnodup.erase 0)
        intro i hi j hj heq
        have hi' := (hnodup.mem_erase_iff.mp hi).1
        have hj' := (hnodup.mem_erase_iff.mp hj).1
        simp only [Nat.pred_eq_sub_one] at heq
        omega
      · intro j hj
        obtain ⟨i, hi, rfl⟩ := List.mem_map.mp hj
        obtain ⟨hne, hmem⟩ := hnodup.mem_erase_iff.mp hi
        obtain ⟨p, hp, hf⟩ := h i hmem
        obtain ⟨k, rfl⟩ := Nat.exists_eq_succ_of_ne_zero hne
        exact ⟨p, by simpa using hp, hf⟩

/-- After a move, every process is the one that moved or one that was there. -/
theorem mem_of_mem_set {ps : List P} {i : ℕ} {p q : P} (h : q ∈ ps.set i p) : q = p ∨ q ∈ ps :=
  (List.mem_or_eq_of_mem_set h).symm

/-! ## The others -/

/-- The others are still there after a move of process `i`. -/
theorem mem_set_of_mem_eraseIdx {ps : List P} {i : ℕ} {p q : P} (h : q ∈ ps.eraseIdx i) : q ∈ ps.set i p := by
  obtain ⟨j, hne, hj⟩ := List.mem_eraseIdx_iff_getElem?.mp h
  apply List.mem_of_getElem? (i := j)
  rw [List.getElem?_set_ne (Ne.symm hne), hj]

/-- Every process is the one that moves or one of the others. -/
theorem eq_or_mem_eraseIdx {ps : List P} {i : ℕ} {p q : P} (hp : ps[i]? = some p) (h : q ∈ ps) :
    q = p ∨ q ∈ ps.eraseIdx i := by
  obtain ⟨j, hj⟩ := List.mem_iff_getElem?.mp h
  by_cases hji : j = i
  · subst hji
    rw [hp, Option.some_inj] at hj
    exact .inl hj.symm
  · exact .inr (List.mem_eraseIdx_iff_getElem?.mpr ⟨j, hji, hj⟩)

theorem perm_eraseIdx {ps : List P} {i : ℕ} {p : P} (h : ps[i]? = some p) :
    ps.Perm (p :: ps.eraseIdx i) := by
  obtain ⟨hlt, rfl⟩ := List.getElem?_eq_some_iff.mp h
  exact (List.getElem_cons_eraseIdx_perm hlt).symm

theorem set_perm_eraseIdx {ps : List P} {i : ℕ} {p : P} (p' : P) (h : ps[i]? = some p) :
    (ps.set i p').Perm (p' :: ps.eraseIdx i) :=
  List.set_perm_cons_eraseIdx (List.getElem?_eq_some_iff.mp h).1 p'

theorem total_perm {f : P → ℕ} {ps qs : List P} (h : ps.Perm qs) : total f ps = total f qs :=
  (h.map f).sum_eq

theorem mem_set_self {ps : List P} {i : ℕ} {p : P} (p' : P) (h : ps[i]? = some p) : p' ∈ ps.set i p' :=
  List.mem_of_getElem? (getElem?_set_self_of p' h)

end Havuz.Lib
