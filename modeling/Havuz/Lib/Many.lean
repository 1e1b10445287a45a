import Mathlib.Data.List.Basic

/-!
# Reading one value after the other

`readMany read n` splits `n` values off the front of a stream. Where a value comes back from its encoding whatever
stands behind it, so does a list of them; and where only the `Good` values come back, a list does just when all of its
values are good (`readMany_flatMap_iff`).
-/

namespace Havuz.Lib

variable {α β τ : Type*}

def readMany (read : List τ → Option (β × List τ)) : ℕ → List τ → Option (List β × List τ)
  | 0, stream => some ([], stream)
  | n + 1, stream =>
      match read stream with
      | none => none
      | some (value, rest) => (readMany read n rest).map fun r => (value :: r.1, r.2)

variable {read : List τ → Option (β × List τ)} {emit : α → List τ} {f : α → β}

/-- The number of values is the one asked for. -/
theorem length_of_readMany {n : ℕ} {stream rest : List τ} {values : List β}
    (h : readMany read n stream = some (values, rest)) : values.length = n := by
  induction n generalizing stream rest values with
  | zero =>
      obtain ⟨rfl, -⟩ := Prod.mk.inj (Option.some.inj h)
      rfl
  | succ n ih =>
      rw [readMany] at h
      cases hread : read stream with
      | none =>
          rw [hread] at h
          cases h
      | some r =>
          obtain ⟨value, tail⟩ := r
          rw [hread] at h
          obtain ⟨⟨values', rest'⟩, hmany, heq⟩ := Option.map_eq_some_iff.mp h
          obtain ⟨rfl, rfl⟩ := Prod.mk.inj heq
          rw [List.length_cons, ih hmany]

/-- Encoded values come back, with what stands behind them. -/
theorem readMany_flatMap {values : List α}
    (h : ∀ v ∈ values, ∀ tail, read (emit v ++ tail) = some (f v, tail)) (tail : List τ) :
    readMany read values.length (values.flatMap emit ++ tail) = some (values.map f, tail) := by
  induction values with
  | nil => rfl
  | cons v values ih =>
      obtain ⟨hv, hvalues⟩ := List.forall_mem_cons.mp h
      rw [List.length_cons, List.flatMap_cons, List.append_assoc, readMany, hv]
      dsimp only
      rw [ih hvalues]
      rfl

/-- As many of them as are asked for. -/
theorem readMany_take {values : List α} {n : ℕ} (hn : n ≤ values.length)
    (h : ∀ v ∈ values, ∀ tail, read (emit v ++ tail) = some (f v, tail)) (tail : List τ) :
    readMany read n (values.flatMap emit ++ tail) =
      some ((values.take n).map f, (values.drop n).flatMap emit ++ tail) := by
  have hlength : (values.take n).length = n := by
    rw [List.length_take]
    omega
  have htaken : ∀ v ∈ values.take n, ∀ tail, read (emit v ++ tail) = some (f v, tail) :=
    fun v hv => h v (List.mem_of_mem_take hv)
  have hread := readMany_flatMap htaken ((values.drop n).flatMap emit ++ tail)
  rwa [hlength, ← List.append_assoc, ← List.flatMap_append, List.take_append_drop] at hread

/-- A value that does not come back from its encoding keeps its whole list from coming back. -/
theorem readMany_flatMap_iff {Good : α → Prop}
    (hgood : ∀ v, Good v → ∀ tail, read (emit v ++ tail) = some (f v, tail))
    (hbad : ∀ v, ¬ Good v → ∀ tail r, read (emit v ++ tail) = some r → r.1 ≠ f v) (values : List α)
    (tail : List τ) :
    ((readMany read values.length (values.flatMap emit ++ tail)).map Prod.fst = some (values.map f)) ↔
      ∀ v ∈ values, Good v := by
  refine ⟨fun h => ?_, fun h => ?_⟩
  · induction values generalizing tail with
    | nil => exact List.forall_mem_nil _
    | cons v values ih =>
        rw [List.length_cons, List.flatMap_cons, List.append_assoc, readMany] at h
        -- The head came back, so it is good, and the rest was read from its own beginning.
        have hv : Good v := by
          by_contra hv
          cases hread : read (emit v ++ (values.flatMap emit ++ tail)) with
          | none =>
              rw [hread] at h
              cases h
          | some r =>
              rw [hread] at h
              obtain ⟨many, hmany, hvalues⟩ := Option.map_eq_some_iff.mp h
              obtain ⟨rest, -, rfl⟩ := Option.map_eq_some_iff.mp hmany
              exact hbad v hv _ r hread (List.cons.inj hvalues).1
        rw [hgood v hv] at h
        dsimp only at h
        refine List.forall_mem_cons.mpr ⟨hv, ih tail ?_⟩
        cases hmany : readMany read values.length (values.flatMap emit ++ tail) with
        | none =>
            rw [hmany] at h
            cases h
        | some r =>
            rw [hmany] at h
            exact congrArg some (List.cons.inj (Option.some.inj h)).2
  · rw [readMany_flatMap fun v hv => hgood v (h v hv)]
    rfl

end Havuz.Lib
