import Mathlib.Data.Char
import Mathlib.Data.List.Lex
import Mathlib.Data.List.Sort

/-!
# Maps as sorted lists of entries

An ordered map whose iteration order is the order of its keys, as `BTreeMap` has it. The entries are
kept strictly sorted by key, so a map is determined by its lookups (`SortedMap.ext_get`).
-/

namespace Havuz.Lib

/-- A finite map, stored as its entries in increasing key order. -/
structure SortedMap (K V : Type*) [LinearOrder K] where
  entries : List (K × V)
  sorted : entries.Pairwise fun a b => a.1 < b.1
deriving DecidableEq

namespace SortedMap

variable {K V : Type*} [LinearOrder K]

/-- The map with no entries. -/
def empty : SortedMap K V := ⟨[], List.Pairwise.nil⟩

/-- Look a key up. -/
def get (m : SortedMap K V) (k : K) : Option V :=
  (m.entries.find? fun e => e.1 = k).map Prod.snd

/-- The keys, in increasing order. -/
def keys (m : SortedMap K V) : List K := m.entries.map Prod.fst

/-- Remove a key. -/
def erase (m : SortedMap K V) (k : K) : SortedMap K V :=
  ⟨m.entries.filter fun e => e.1 ≠ k, m.sorted.filter _⟩

/-- Keep the entries a test accepts, as `retain` does. -/
def filter (m : SortedMap K V) (p : K × V → Bool) : SortedMap K V :=
  ⟨m.entries.filter p, m.sorted.filter _⟩

/-- Put an entry at its place in front of the first larger key. -/
def insertEntry (k : K) (v : V) : List (K × V) → List (K × V)
  | [] => [(k, v)]
  | e :: rest =>
      if k < e.1 then (k, v) :: e :: rest
      else if k = e.1 then (k, v) :: rest
      else e :: insertEntry k v rest

theorem mem_insertEntry {k : K} {v : V} {l : List (K × V)} {e : K × V}
    (h : e ∈ insertEntry k v l) : e = (k, v) ∨ e ∈ l := by
  induction l with
  | nil => simpa [insertEntry] using h
  | cons a rest ih =>
      rw [insertEntry] at h
      split at h
      · simpa using h
      · split at h
        · rcases List.mem_cons.mp h with h | h
          · exact .inl h
          · exact .inr (by simp [h])
        · rcases List.mem_cons.mp h with rfl | h
          · exact .inr (by simp)
          · rcases ih h with h | h
            · exact .inl h
            · exact .inr (by simp [h])

theorem insertEntry_sorted (k : K) (v : V) {l : List (K × V)}
    (h : l.Pairwise fun a b => a.1 < b.1) :
    (insertEntry k v l).Pairwise fun a b => a.1 < b.1 := by
  induction l with
  | nil => simp [insertEntry]
  | cons a rest ih =>
      obtain ⟨ha, hrest⟩ := List.pairwise_cons.mp h
      rw [insertEntry]
      split
      case isTrue hlt =>
        refine List.pairwise_cons.mpr ⟨?_, h⟩
        intro e he
        rcases List.mem_cons.mp he with rfl | he
        · exact hlt
        · exact lt_trans hlt (ha e he)
      case isFalse hlt =>
        split
        case isTrue heq =>
          refine List.pairwise_cons.mpr ⟨?_, hrest⟩
          intro e he
          exact heq ▸ ha e he
        case isFalse heq =>
          refine List.pairwise_cons.mpr ⟨?_, ih hrest⟩
          intro e he
          rcases mem_insertEntry he with rfl | he
          · exact lt_of_le_of_ne (not_lt.mp hlt) (Ne.symm heq)
          · exact ha e he

/-- Add an entry, replacing the one under the same key. -/
def insert (m : SortedMap K V) (k : K) (v : V) : SortedMap K V :=
  ⟨insertEntry k v m.entries, insertEntry_sorted k v m.sorted⟩

/-- Apply a function to every value, as a loop over `values_mut` does. -/
def mapValues {W : Type*} (f : V → W) (m : SortedMap K V) : SortedMap K W :=
  ⟨m.entries.map fun e => (e.1, f e.2), m.sorted.map _ fun _ _ hlt => hlt⟩

/-! ## Lookups -/

@[simp] theorem get_empty (k : K) : (empty : SortedMap K V).get k = none := rfl

theorem find?_insertEntry (k k' : K) (v : V) (l : List (K × V)) :
    ((insertEntry k v l).find? fun e => e.1 = k').map Prod.snd =
      if k' = k then some v else (l.find? fun e => e.1 = k').map Prod.snd := by
  induction l with
  | nil => by_cases h : k = k' <;> simp [insertEntry, h, eq_comm]
  | cons a rest ih =>
      rw [insertEntry]
      split
      case isTrue hlt => by_cases h : k = k' <;> simp [List.find?_cons, h, eq_comm]
      case isFalse hlt =>
        split
        case isTrue heq =>
          by_cases h : k = k'
          · simp [h]
          · have ha : a.1 ≠ k' := heq ▸ h
            simp [h, ha, Ne.symm h]
        case isFalse heq =>
          by_cases ha : a.1 = k'
          · have hk : k' ≠ k := fun h => heq (by rw [ha, h])
            simp [ha, hk]
          · simp [ha, ih]

@[simp] theorem get_insert (m : SortedMap K V) (k k' : K) (v : V) :
    (m.insert k v).get k' = if k' = k then some v else m.get k' :=
  find?_insertEntry k k' v m.entries

@[simp] theorem get_erase (m : SortedMap K V) (k k' : K) :
    (m.erase k).get k' = if k' = k then none else m.get k' := by
  unfold get erase
  simp only [List.find?_filter]
  by_cases h : k' = k
  · subst h
    simp
  · have hfun : (fun e : K × V => !decide (e.1 = k) && decide (e.1 = k')) =
        fun e => decide (e.1 = k') := by
      funext e
      by_cases he : e.1 = k'
      · simp [he, h]
      · simp [he]
    simp [h, hfun]

@[simp] theorem get_mapValues {W : Type*} (f : V → W) (m : SortedMap K V) (k : K) :
    (m.mapValues f).get k = (m.get k).map f := by
  unfold get mapValues
  simp only [List.find?_map, Option.map_map]
  rfl

/-- An entry of the list is what its key looks up. -/
theorem get_of_mem {m : SortedMap K V} {e : K × V} (h : e ∈ m.entries) : m.get e.1 = some e.2 := by
  obtain ⟨l, hl⟩ := m
  unfold get
  simp only at h ⊢
  induction l with
  | nil => simp at h
  | cons a rest ih =>
      obtain ⟨ha, hrest⟩ := List.pairwise_cons.mp hl
      rcases List.mem_cons.mp h with rfl | h
      · simp
      · have hne : a.1 ≠ e.1 := ne_of_lt (ha e h)
        rw [List.find?_cons_of_neg (by simpa using hne)]
        exact ih hrest h

theorem mem_of_get {m : SortedMap K V} {k : K} {v : V} (h : m.get k = some v) :
    (k, v) ∈ m.entries := by
  unfold get at h
  rw [Option.map_eq_some_iff] at h
  obtain ⟨e, he, hv⟩ := h
  have hk : e.1 = k := by simpa using List.find?_some he
  have hmem := List.mem_of_find?_eq_some he
  rwa [show (k, v) = e from by rw [← hk, ← hv]]

theorem get_eq_some_iff {m : SortedMap K V} {k : K} {v : V} :
    m.get k = some v ↔ (k, v) ∈ m.entries :=
  ⟨mem_of_get, fun h => get_of_mem h⟩

theorem mem_keys {m : SortedMap K V} {k : K} : k ∈ m.keys ↔ (m.get k).isSome = true := by
  rw [keys, List.mem_map, Option.isSome_iff_exists]
  constructor
  · rintro ⟨e, he, rfl⟩
    exact ⟨e.2, get_of_mem he⟩
  · rintro ⟨v, hv⟩
    exact ⟨(k, v), mem_of_get hv, rfl⟩

theorem get_filter_eq_some {m : SortedMap K V} {p : K × V → Bool} {k : K} {v : V} :
    (m.filter p).get k = some v ↔ m.get k = some v ∧ p (k, v) = true := by
  simp [get_eq_some_iff, filter]

theorem filter_eq_self {m : SortedMap K V} {p : K × V → Bool} (h : ∀ e ∈ m.entries, p e = true) :
    m.filter p = m := by
  obtain ⟨l, hl⟩ := m
  simp only [filter, mk.injEq]
  exact List.filter_eq_self.mpr h

/-! ## Building a map -/

/-- An entry behind all the others. -/
theorem insertEntry_last {k : K} {v : V} {l : List (K × V)} (h : ∀ e ∈ l, e.1 < k) :
    insertEntry k v l = l ++ [(k, v)] := by
  induction l with
  | nil => rfl
  | cons a l ih =>
      have ha : a.1 < k := h a List.mem_cons_self
      rw [insertEntry, if_neg (not_lt_of_gt ha), if_neg (ne_of_gt ha), ih fun e he => h e (List.mem_cons_of_mem a he),
        List.cons_append]

theorem entries_foldl_insert (m : SortedMap K V) {l : List (K × V)}
    (h : (m.entries ++ l).Pairwise fun a b => a.1 < b.1) :
    (l.foldl (fun (m : SortedMap K V) e => m.insert e.1 e.2) m).entries = m.entries ++ l := by
  induction l generalizing m with
  | nil => rw [List.append_nil, List.foldl_nil]
  | cons a l ih =>
      have hbehind : ∀ e ∈ m.entries, e.1 < a.1 := fun e he =>
        (List.pairwise_append.mp h).2.2 e he a List.mem_cons_self
      have hinsert : (m.insert a.1 a.2).entries = m.entries ++ [a] := insertEntry_last hbehind
      rw [List.foldl_cons, ih (m.insert a.1 a.2) (by rwa [hinsert, List.append_assoc]), hinsert, List.append_assoc]
      rfl

theorem ext_entries {m m' : SortedMap K V} (h : m.entries = m'.entries) : m = m' := by
  cases m
  cases m'
  cases h
  rfl

/-- A map is built from its entries. -/
theorem foldl_insert (m : SortedMap K V) :
    m.entries.foldl (fun (built : SortedMap K V) e => built.insert e.1 e.2) empty = m := by
  apply ext_entries
  exact entries_foldl_insert empty m.sorted

/-- **Lookups determine the map.** -/
theorem ext_get {m₁ m₂ : SortedMap K V} (h : ∀ k, m₁.get k = m₂.get k) : m₁ = m₂ := by
  have hmem : ∀ e : K × V, e ∈ m₁.entries ↔ e ∈ m₂.entries := fun e =>
    ⟨fun he => mem_of_get (by rw [← h, get_of_mem he]), fun he => mem_of_get (by rw [h, get_of_mem he])⟩
  have irrefl : ∀ (m : SortedMap K V), m.entries.Nodup := fun m =>
    m.sorted.imp fun hlt heq => absurd (heq ▸ hlt) (lt_irrefl _)
  have hperm : m₁.entries.Perm m₂.entries :=
    (List.perm_ext_iff_of_nodup (irrefl m₁) (irrefl m₂)).mpr hmem
  have heq : m₁.entries = m₂.entries := by
    refine hperm.eq_of_pairwise ?_ m₁.sorted m₂.sorted
    intro a b _ _ hab hba
    exact absurd (lt_trans hab hba) (lt_irrefl _)
  cases m₁; cases m₂; simp_all

end SortedMap

end Havuz.Lib
