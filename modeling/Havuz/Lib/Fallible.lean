import Mathlib.Data.List.Basic

/-!
# Folds that may fail

A loop that returns at its first error is a fold in `Except`. What every step keeps, the whole loop keeps
(`foldlM_kept`); what the step of one element establishes and the later ones keep holds in the end
(`foldlM_reached`). A loop of checks passes when all of them do (`forM_eq_ok`).
-/

namespace Havuz.Lib

variable {ε S A : Type}

theorem bind_eq_ok {B : Type} {x : Except ε A} {f : A → Except ε B} {b : B} :
    x >>= f = .ok b ↔ ∃ a, x = .ok a ∧ f a = .ok b := by
  match x with
  | .error e => simp [bind, Except.bind]
  | .ok a => simp [bind, Except.bind]

/-- Every step keeps `P`, so the loop does. -/
theorem foldlM_kept {f : S → A → Except ε S} {P : S → Prop}
    (step : ∀ s x s', f s x = .ok s' → P s → P s') {l : List A} {s s' : S}
    (h : l.foldlM f s = .ok s') (hs : P s) : P s' := by
  induction l generalizing s with
  | nil =>
    cases h
    exact hs
  | cons x rest ih =>
    rw [List.foldlM_cons, bind_eq_ok] at h
    obtain ⟨s₁, hx, hrest⟩ := h
    apply ih hrest
    exact step s x s₁ hx hs

/-- The step of `x` establishes `Q x` and every later step keeps it. -/
theorem foldlM_reached {f : S → A → Except ε S} {Q : A → S → Prop}
    (first : ∀ s x s', f s x = .ok s' → Q x s')
    (later : ∀ s x s', f s x = .ok s' → ∀ y, Q y s → Q y s')
    {l : List A} {s s' : S} (h : l.foldlM f s = .ok s') : ∀ x ∈ l, Q x s' := by
  induction l generalizing s with
  | nil => simp
  | cons y rest ih =>
    rw [List.foldlM_cons, bind_eq_ok] at h
    obtain ⟨s₁, hy, hrest⟩ := h
    intro x hx
    rcases List.mem_cons.mp hx with rfl | hx
    · apply foldlM_kept (fun s z s' hz => later s z s' hz x) hrest
      exact first s x s₁ hy
    · exact ih hrest x hx

/-- A loop over checks passes when every check does. -/
theorem forM_eq_ok {f : A → Except ε Unit} {l : List A} : forM l f = .ok () ↔ ∀ x ∈ l, f x = .ok () := by
  induction l with
  | nil => simp [pure, Except.pure]
  | cons x l ih =>
      rw [List.forM_cons, bind_eq_ok, List.forall_mem_cons, ← ih]
      constructor
      · rintro ⟨⟨⟩, hx, hrest⟩
        exact ⟨hx, hrest⟩
      · rintro ⟨hx, hrest⟩
        exact ⟨(), hx, hrest⟩

end Havuz.Lib
