import Havuz.Pool.Retire

/-!
# The reaper and the warm floor

Reference: `Pool::reap` of `havuz-pool/src/pool.rs`. The loop itself is `reapLoop`; here are the limits and
the clock readings it decides by, and what it leaves of a queue.

The budget for idle connections is what the queue holds over `min_idle`, counted before the loop knows how
many of its entries are unusable. Those go as well and do not use the budget up, so together the two can take
more than the floor allows (`keepsFloor_iff`).
-/

namespace Havuz.Pool

/-- The part of `PoolLimits` that `reap` reads. A duration of zero switches its check off. -/
structure ReapLimits where
  minIdle : ℕ
  idleTimeout : ℕ
  maxLifetime : ℕ
deriving DecidableEq, Repr

/-- A connection on the idle queue, with what the clock says of it when `reap` looks at it. -/
structure Slot where
  isBroken : Bool := false
  /-- `opened_at().elapsed()`. -/
  age : ℕ
  /-- `idle_since.elapsed()`. -/
  idleFor : ℕ
deriving DecidableEq, Repr

namespace Slot

variable (l : ReapLimits) (s : Slot)

def isExpired : Bool := l.maxLifetime ≠ 0 ∧ l.maxLifetime ≤ s.age

/-- Unusable connections go regardless of `min_idle`. -/
def unfit : Bool := s.isBroken || s.isExpired l

def tooIdle : Bool := l.idleTimeout ≠ 0 ∧ l.idleTimeout ≤ s.idleFor

/-- Neither broken nor expired. -/
def healthy : Bool := !s.unfit l

end Slot

/-- How many healthy connections may be retired for being idle. -/
def reapBudget (l : ReapLimits) (idle : List Slot) : ℕ := idle.length - l.minIdle

/-- `Pool::reap`: the queue it leaves, and the number it returns. -/
def reap (l : ReapLimits) (idle : List Slot) : List Slot × ℕ :=
  reapLoop (Slot.unfit l) (Slot.tooIdle l) (reapBudget l idle) idle

/-- The connections it sends to the closer. -/
def reaped (l : ReapLimits) (idle : List Slot) : List Slot :=
  reapRetired (Slot.unfit l) (Slot.tooIdle l) (reapBudget l idle) idle

/-! ## The loop -/

section Loop

variable {κ : Type} (unfit tooIdle : κ → Bool)

/-- What is kept stays in order. -/
theorem reapLoop_sublist (budget : ℕ) (q : List κ) : (reapLoop unfit tooIdle budget q).1.Sublist q := by
  induction q generalizing budget with
  | nil => exact List.Sublist.refl []
  | cons c rest ih =>
      unfold reapLoop
      split
      · exact (ih budget).cons c
      · split
        · exact (ih (budget - 1)).cons c
        · exact (ih budget).cons_cons c

theorem reapLoop_fit (budget : ℕ) (q : List κ) : ∀ c ∈ (reapLoop unfit tooIdle budget q).1, unfit c = false := by
  induction q generalizing budget with
  | nil => exact nofun
  | cons c rest ih =>
      unfold reapLoop
      split
      case isTrue => exact ih budget
      case isFalse hfit =>
        split
        · exact ih (budget - 1)
        · exact List.forall_mem_cons.mpr ⟨Bool.eq_false_iff.mpr hfit, ih budget⟩

/-- Of the usable connections, what is kept and what is retired make up all. -/
theorem length_reapLoop (budget : ℕ) (q : List κ) :
    (reapLoop unfit tooIdle budget q).1.length + (reapRetired unfit tooIdle budget q).countP (fun c => !unfit c) =
      q.countP fun c => !unfit c := by
  induction q generalizing budget with
  | nil => rfl
  | cons c rest ih =>
      unfold reapLoop reapRetired
      by_cases hunfit : unfit c = true
      · have hcount : ∀ q : List κ, (c :: q).countP (fun c => !unfit c) = q.countP fun c => !unfit c := fun q => by
          simp [hunfit]
        simp only [hunfit, if_true]
        rw [hcount, hcount, ih]
      · have hcount : ∀ q : List κ, (c :: q).countP (fun c => !unfit c) = (q.countP fun c => !unfit c) + 1 := fun q => by
          simp [hunfit]
        by_cases hidle : tooIdle c = true ∧ 0 < budget
        · have hrest := ih (budget - 1)
          simp only [hunfit, hidle, and_self, if_true]
          rw [if_neg (by simp), if_neg (by simp), hcount, hcount]
          dsimp only
          omega
        · have hrest := ih budget
          simp only [hunfit, hidle, if_false]
          rw [if_neg (by simp), if_neg (by simp), hcount, List.length_cons]
          omega

/-- The usable connections that are retired are the idle ones, as far as the budget goes. -/
theorem countP_reapRetired (budget : ℕ) (q : List κ) :
    (reapRetired unfit tooIdle budget q).countP (fun c => !unfit c) =
      min budget (q.countP fun c => !unfit c && tooIdle c) := by
  induction q generalizing budget with
  | nil => simp [reapRetired]
  | cons c rest ih =>
      unfold reapRetired
      by_cases hunfit : unfit c = true
      · simp [hunfit, ih]
      · by_cases hidle : tooIdle c = true
        · by_cases hbudget : 0 < budget
          · have hrest := ih (budget - 1)
            simp [hunfit, hidle, hbudget, hrest]
            omega
          · simp [hunfit, hidle, hbudget, ih]
            omega
        · simp [hunfit, hidle, ih]

end Loop

/-! ## The floor -/

/-- `reap` takes what is unusable, keeps the rest in order and counts what it takes, and it takes a healthy
connection only where the floor stays covered. -/
structure KeepsFloor (l : ReapLimits) (idle : List Slot) : Prop where
  removes : ∀ s ∈ (reap l idle).1, s.healthy l = true
  order : (reap l idle).1.Sublist idle
  count : (reap l idle).1.length + (reap l idle).2 = idle.length
  floor : (∃ s ∈ reaped l idle, s.healthy l = true) → l.minIdle ≤ (reap l idle).1.countP (Slot.healthy l)

/-- The floor is kept if nothing in the queue is unusable, if nothing healthy has been idle for too long, if
the queue is not longer than the floor, or if the healthy connections that are not idle for too long cover it;
and only then. -/
theorem keepsFloor_iff (l : ReapLimits) (idle : List Slot) :
    KeepsFloor l idle ↔
      (∀ s ∈ idle, s.healthy l = true) ∨ (∀ s ∈ idle, s.healthy l = true → s.tooIdle l = false) ∨
        idle.length ≤ l.minIdle ∨ l.minIdle ≤ idle.countP fun s => s.healthy l && !s.tooIdle l := by
  have hfit : ∀ s ∈ (reap l idle).1, s.healthy l = true := fun s hs => by
    rw [Slot.healthy, reapLoop_fit _ _ _ _ s hs]
    rfl
  have hkept : (reap l idle).1.countP (Slot.healthy l) = (reap l idle).1.length := List.countP_eq_length.mpr hfit
  have hlength : (reap l idle).1.length + (reaped l idle).countP (Slot.healthy l) = idle.countP (Slot.healthy l) :=
    length_reapLoop _ _ _ _
  have hretired : (reaped l idle).countP (Slot.healthy l) =
      min (idle.length - l.minIdle) (idle.countP fun s => s.healthy l && s.tooIdle l) :=
    countP_reapRetired _ _ _ _
  have hsplit : idle.countP (Slot.healthy l) =
      (idle.countP fun s => s.healthy l && s.tooIdle l) + idle.countP fun s => s.healthy l && !s.tooIdle l := by
    rw [List.countP_eq_countP_filter_add _ _ (Slot.tooIdle l), List.countP_filter, List.countP_filter]
  have hunfit : idle.length = idle.countP (Slot.healthy l) + idle.countP fun s => !s.healthy l := by
    rw [List.length_eq_countP_add_countP (Slot.healthy l)]
    simp
  have hall : (∀ s ∈ idle, s.healthy l = true) ↔ (idle.countP fun s => !s.healthy l) = 0 := by
    simp [List.countP_eq_zero]
  have hnone : (∀ s ∈ idle, s.healthy l = true → s.tooIdle l = false) ↔
      (idle.countP fun s => s.healthy l && s.tooIdle l) = 0 := by
    simp [List.countP_eq_zero]
  have htaken : (∃ s ∈ reaped l idle, s.healthy l = true) ↔ 0 < (reaped l idle).countP (Slot.healthy l) :=
    List.countP_pos_iff.symm
  rw [hall, hnone]
  constructor
  · intro h
    have hfloor := h.floor
    rw [htaken, hkept] at hfloor
    omega
  · intro h
    refine ⟨hfit, reapLoop_sublist _ _ _ _, reapLoop_length _ _ _ _, ?_⟩
    rw [htaken, hkept]
    omega

/-- With a floor of two, a broken connection and two idle ones leave one. -/
theorem not_keepsFloor : ¬ KeepsFloor ⟨2, 10, 0⟩ [⟨true, 30, 30⟩, ⟨false, 30, 30⟩, ⟨false, 30, 30⟩] := by
  intro h
  exact absurd (h.floor ⟨⟨false, 30, 30⟩, by decide⟩) (by decide)

end Havuz.Pool
