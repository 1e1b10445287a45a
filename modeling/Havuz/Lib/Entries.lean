import Mathlib
import Havuz.Lib.Patch

/-!
# The entries of a map, in any order

What an operation does to the entries of a map up to their order, to account for what moves between maps and lists.
-/

namespace Havuz.Lib.SortedMap

variable {K V B : Type*} [LinearOrder K] {m : SortedMap K V} {k : K} {v w : V}

theorem nodup_entries (m : SortedMap K V) : m.entries.Nodup :=
  m.sorted.imp fun hlt heq => absurd (heq ▸ hlt) (lt_irrefl _)

theorem perm_erase (h : m.get k = some v) : m.entries.Perm ((k, v) :: (m.erase k).entries) := by
  have hnot : (k, v) ∉ (m.erase k).entries := fun hmem => by
    rw [← get_eq_some_iff, get_erase, if_pos rfl] at hmem
    cases hmem
  refine (List.perm_ext_iff_of_nodup m.nodup_entries (List.nodup_cons.mpr ⟨hnot, nodup_entries _⟩)).mpr fun e => ?_
  rw [List.mem_cons, ← get_eq_some_iff (k := e.1) (v := e.2), ← get_eq_some_iff (k := e.1) (v := e.2), get_erase]
  by_cases he : e.1 = k
  · rw [if_pos he, he, h]
    constructor
    · intro hv
      exact .inl (Prod.ext he (Option.some.inj hv).symm)
    · rintro (rfl | hnone)
      · rfl
      · cases hnone
  · rw [if_neg he]
    constructor
    · exact .inr
    · rintro (rfl | hget)
      · exact absurd rfl he
      · exact hget

theorem erase_insert (m : SortedMap K V) (k : K) (v : V) : (m.insert k v).erase k = m.erase k := by
  refine ext_get fun j => ?_
  rw [get_erase, get_erase, get_insert]
  split_ifs <;> rfl

theorem erase_of_none (h : m.get k = none) : m.erase k = m := by
  refine ext_get fun j => ?_
  rw [get_erase]
  split_ifs with hj
  · rw [hj, h]
  · rfl

theorem perm_insert (m : SortedMap K V) (k : K) (v : V) :
    (m.insert k v).entries.Perm ((k, v) :: (m.erase k).entries) := by
  have hperm := perm_erase (m := m.insert k v) (k := k) (v := v) (by rw [get_insert, if_pos rfl])
  rwa [erase_insert] at hperm

/-- Under a new key there is one entry more. -/
theorem perm_insert_new (h : m.get k = none) : (m.insert k v).entries.Perm ((k, v) :: m.entries) := by
  have hperm := perm_insert m k v
  rwa [erase_of_none h] at hperm

/-- What looks the same of the new value and of the old one stays. -/
theorem perm_insert_same {f : K × V → B} (h : m.get k = some w) (hf : f (k, v) = f (k, w)) :
    ((m.insert k v).entries.map f).Perm (m.entries.map f) := by
  refine ((perm_insert m k v).map f).trans ?_
  rw [List.map_cons, hf, ← List.map_cons]
  exact ((perm_erase h).map f).symm

theorem keys_insert_same (h : m.get k = some w) : (m.insert k v).keys.Perm m.keys :=
  perm_insert_same (f := Prod.fst) h rfl

/-- What a filter keeps, and what it does not. -/
theorem perm_filter (m : SortedMap K V) (p : K × V → Bool) :
    m.entries.Perm ((m.filter p).entries ++ m.entries.filter fun e => !p e) :=
  (List.filter_append_perm p m.entries).symm

end Havuz.Lib.SortedMap
