import Havuz.Backend
import Havuz.Lib.Patch

/-!
# The delta of a client's parameters

Reference: `stage`, `commit_pending`, `discard_pending` and `delta` of `havuz-pg/src/params.rs`. A delta is the
text of a patch: `RESET n` drops the key `n`, and a stored statement puts its own key.
-/

namespace Havuz.Sql.ClientParams

open Lib SortedMap

/-- The statement of an edit. -/
def editText : Edit Text Text → Text
  | .drop name => "RESET ".toList ++ name
  | .put _ statement => statement

/-- What a delta is to change. -/
def patch (p : ClientParams) (applied : ParamMap) : List (Edit Text Text) := edits p.desired applied

theorem delta_eq_map (p : ClientParams) (applied : ParamMap) : p.delta applied = (p.patch applied).map editText := by
  rw [delta, patch, edits, List.map_append, List.map_map, List.map_map]
  rfl

/-- What is staged is appended, except for the action that is none. -/
theorem pending_stageAll (p : ClientParams) (actions : List SetAction) :
    (actions.foldl stage p).pending = p.pending ++ actions.filter (· ≠ .none) := by
  induction actions generalizing p with
  | nil => simp
  | cons a actions ih =>
      rw [List.foldl_cons, ih, stage]
      by_cases ha : a = .none
      · rw [if_pos ha, List.filter_cons_of_neg (by simpa using ha)]
      · rw [if_neg ha, List.filter_cons_of_pos (by simpa using ha), List.append_assoc]
        rfl

theorem desired_stageAll (p : ClientParams) (actions : List SetAction) :
    (actions.foldl stage p).desired = p.desired := by
  induction actions generalizing p with
  | nil => rfl
  | cons a actions ih =>
      rw [List.foldl_cons, ih, stage]
      split <;> rfl

theorem foldl_applyAction_filter (m : ParamMap) (actions : List SetAction) :
    (actions.filter (· ≠ .none)).foldl applyAction m = actions.foldl applyAction m := by
  induction actions generalizing m with
  | nil => rfl
  | cons a actions ih =>
      by_cases ha : a = .none
      · rw [List.filter_cons_of_neg (by simpa using ha), ih, List.foldl_cons, ha, applyAction]
      · rw [List.filter_cons_of_pos (by simpa using ha), List.foldl_cons, List.foldl_cons, ih]

/-- **A delta is a correct and minimal patch**, and commits do what was staged, in order. -/
theorem delta_patches {σ : Type} (p : ClientParams) (applied : ParamMap) (c : PgBackend σ)
    (actions : List SetAction) :
    (p.delta applied = (p.patch applied).map editText ∧ (p.patch applied).foldl Edit.apply applied = p.desired ∧
        ((p.patch applied).map Edit.key).Nodup) ∧
      (p.delta applied = [] ↔ applied = p.desired) ∧
      p.delta (c.setAppliedParams p.desired).appliedParams = [] ∧
      (actions.foldl stage p).commitPending =
        ⟨actions.foldl applyAction p.commitPending.desired, []⟩ ∧
      (actions.foldl stage p).discardPending = ⟨p.desired, []⟩ := by
  have hnil : ∀ applied, p.delta applied = [] ↔ applied = p.desired := by
    intro applied
    rw [delta_eq_map, List.map_eq_nil_iff]
    exact edits_eq_nil_iff
  refine ⟨⟨delta_eq_map p applied, apply_edits p.desired applied, nodup_edits⟩, hnil applied, (hnil _).mpr rfl, ?_, ?_⟩
  · rw [commitPending, commitPending, desired_stageAll, pending_stageAll, List.foldl_append, foldl_applyAction_filter]
  · rw [discardPending, desired_stageAll]

end Havuz.Sql.ClientParams
