import Havuz.Lib.SortedMap

/-!
# Patches between two maps

`edits want has` are the changes that make the map `has` the map `want`: the keys to drop, then the entries to
put. `apply_edits` says that they do, `nodup_edits` that no key is changed twice and `edits_eq_nil_iff` that there
are none where there is nothing to change.
-/

namespace Havuz.Lib

namespace SortedMap

variable {K V : Type*} [LinearOrder K]

/-- A change of one key. -/
inductive Edit (K V : Type*) where
  | drop (key : K)
  | put (key : K) (value : V)
deriving DecidableEq, Repr

namespace Edit

def key : Edit K V → K
  | drop k => k
  | put k _ => k

/-- What the key looks up afterwards. -/
def value : Edit K V → Option V
  | drop _ => none
  | put _ v => some v

def apply (m : SortedMap K V) : Edit K V → SortedMap K V
  | drop k => m.erase k
  | put k v => m.insert k v

theorem get_apply (m : SortedMap K V) (e : Edit K V) (k : K) :
    (e.apply m).get k = if k = e.key then e.value else m.get k := by
  cases e with
  | drop k' => exact get_erase m k' k
  | put k' v => exact get_insert m k' k v

end Edit

/-- A key that no edit is about keeps its value. -/
theorem get_foldl_of_notMem {es : List (Edit K V)} {k : K} (h : k ∉ es.map Edit.key) (m : SortedMap K V) :
    (es.foldl Edit.apply m).get k = m.get k := by
  induction es generalizing m with
  | nil => rfl
  | cons e es ih =>
      rw [List.map_cons, List.mem_cons, not_or] at h
      rw [List.foldl_cons, ih h.2, Edit.get_apply, if_neg h.1]

/-- A key that one edit is about has the value it gives. -/
theorem get_foldl_of_mem {es : List (Edit K V)} (hnodup : (es.map Edit.key).Nodup) {e : Edit K V} (h : e ∈ es)
    (m : SortedMap K V) : (es.foldl Edit.apply m).get e.key = e.value := by
  induction es generalizing m with
  | nil => cases h
  | cons e' es ih =>
      rw [List.map_cons, List.nodup_cons] at hnodup
      rw [List.foldl_cons]
      obtain rfl | h := List.mem_cons.mp h
      · rw [get_foldl_of_notMem hnodup.1, Edit.get_apply, if_pos rfl]
      · exact ih hnodup.2 h (e'.apply m)

theorem nodup_keys (m : SortedMap K V) : m.keys.Nodup :=
  List.Pairwise.map Prod.fst (fun _ _ hlt => ne_of_lt hlt) m.sorted

variable [DecidableEq V]

/-- What makes `has` the map `want`: first what is not wanted goes, then come the entries that are missing or
different, each in key order. -/
def edits (want has : SortedMap K V) : List (Edit K V) :=
  (has.keys.filter fun k => (want.get k).isNone).map .drop ++
    (want.entries.filter fun e => has.get e.1 ≠ some e.2).map fun e => .put e.1 e.2

variable {want has : SortedMap K V}

theorem drop_mem_edits {k : K} : .drop k ∈ edits want has ↔ want.get k = none ∧ has.get k ≠ none := by
  simp [edits, mem_keys, Option.isSome_iff_ne_none, and_comm]

theorem put_mem_edits {k : K} {v : V} : .put k v ∈ edits want has ↔ want.get k = some v ∧ has.get k ≠ some v := by
  simp [edits, get_eq_some_iff]

/-- No key is changed twice. -/
theorem nodup_edits : ((edits want has).map Edit.key).Nodup := by
  rw [edits, List.map_append, List.map_map, List.map_map]
  refine List.nodup_append.mpr ⟨?_, ?_, ?_⟩
  · have hkeys : (has.keys.filter fun k => (want.get k).isNone).map (Edit.key ∘ (Edit.drop : K → Edit K V)) =
        has.keys.filter fun k => (want.get k).isNone := List.map_id _
    rw [hkeys]
    exact (nodup_keys has).filter _
  · exact (nodup_keys want).sublist (List.filter_sublist.map Prod.fst)
  · rintro k hdrop k' hput rfl
    -- what is dropped is not wanted, what is put is
    obtain ⟨j, hj, rfl⟩ := List.mem_map.mp hdrop
    obtain ⟨e, he, heq⟩ := List.mem_map.mp hput
    have hnone : want.get j = none := by simpa using (List.mem_filter.mp hj).2
    have hsome := get_of_mem (List.mem_of_mem_filter he)
    rw [show e.1 = j from heq, hnone] at hsome
    cases hsome

/-- **The edits make the one map the other.** -/
theorem apply_edits (want has : SortedMap K V) : (edits want has).foldl Edit.apply has = want := by
  refine ext_get fun k => ?_
  cases hwant : want.get k with
  | none =>
      by_cases hhas : has.get k = none
      · rw [get_foldl_of_notMem, hhas]
        intro hk
        obtain ⟨e, he, rfl⟩ := List.mem_map.mp hk
        cases e with
        | drop k => exact (drop_mem_edits.mp he).2 hhas
        | put k v => exact absurd (hwant.symm.trans (put_mem_edits.mp he).1) nofun
      · exact get_foldl_of_mem nodup_edits (drop_mem_edits.mpr ⟨hwant, hhas⟩) has
  | some v =>
      by_cases hhas : has.get k = some v
      · rw [get_foldl_of_notMem, hhas]
        intro hk
        obtain ⟨e, he, rfl⟩ := List.mem_map.mp hk
        cases e with
        | drop k => exact absurd (hwant.symm.trans (drop_mem_edits.mp he).1) nofun
        | put k v' =>
            obtain ⟨hv', hne⟩ := put_mem_edits.mp he
            exact hne (hhas.trans (hwant.symm.trans hv'))
      · exact get_foldl_of_mem nodup_edits (put_mem_edits.mpr ⟨hwant, hhas⟩) has

/-- There is nothing to change exactly where the maps are the same. -/
theorem edits_eq_nil_iff : edits want has = [] ↔ has = want := by
  constructor
  · intro h
    have happly := apply_edits want has
    rwa [h] at happly
  · rintro rfl
    refine List.eq_nil_iff_forall_not_mem.mpr fun e he => ?_
    cases e with
    | drop k => exact (drop_mem_edits.mp he).2 (drop_mem_edits.mp he).1
    | put k v => exact (put_mem_edits.mp he).2 (put_mem_edits.mp he).1

end SortedMap

end Havuz.Lib
