import Mathlib
import Havuz.Lib.Patch

/-!
# Counting under a cap

A table that takes no new key once it has `n` of them. After any list of updates it has the first `n` different keys of
the list, whatever they were and however often they came, and under each what all of its updates make of it
(`Capped.get_build`). An update is refused where its key is not one of those (`Capped.refused`).
-/

namespace Havuz.Lib

/-- What came behind the last label that stops the count. -/
def since {L : Type*} (stop : L → Bool) (ls : List L) : List L := (ls.reverse.takeWhile fun l => !stop l).reverse

theorem since_snoc {L : Type*} (stop : L → Bool) (ls : List L) (l : L) :
    since stop (ls ++ [l]) = if stop l = true then [] else since stop ls ++ [l] := by
  rw [since, List.reverse_append, List.reverse_singleton, List.singleton_append, List.takeWhile_cons]
  cases stop l with
  | true => rfl
  | false => simp [since]

theorem since_eq_self {L : Type*} {stop : L → Bool} {ls : List L} (h : ∀ l ∈ ls, stop l = false) :
    since stop ls = ls := by
  have hall : ls.reverse.takeWhile (fun l => !stop l) = ls.reverse :=
    List.takeWhile_eq_self_iff.mpr fun l hl => by rw [h l (List.mem_reverse.mp hl)]; rfl
  rw [since, hall, List.reverse_reverse]

/-- A counter that a label may set to zero, and another one may count up. -/
theorem countP_since_snoc {L : Type*} (stop p : L → Bool) (ls : List L) (l : L) :
    (since stop (ls ++ [l])).countP p =
      if stop l = true then 0 else (since stop ls).countP p + if p l = true then 1 else 0 := by
  rw [since_snoc]
  split_ifs with hstop
  · rfl
  all_goals simp_all

theorem countP_or {A : Type*} {p q : A → Bool} (hdisjoint : ∀ a, p a = true → q a = false) (l : List A) :
    l.countP (fun a => p a || q a) = l.countP p + l.countP q := by
  induction l with
  | nil => rfl
  | cons a l ih =>
      have ha := hdisjoint a
      rw [List.countP_cons, List.countP_cons, List.countP_cons, ih]
      cases hp : p a with
      | true =>
          rw [ha hp]
          simp
          omega
      | false =>
          simp
          omega

/-- Counting under each of a list of keys is counting under all of them. -/
theorem sum_countP {A K : Type*} [DecidableEq K] (f : A → K) {ks : List K} (hnodup : ks.Nodup) (l : List A) :
    (ks.map fun k => l.countP fun a => f a = k).sum = l.countP fun a => f a ∈ ks := by
  induction ks with
  | nil => simp
  | cons k ks ih =>
      obtain ⟨hk, hnodup⟩ := List.nodup_cons.mp hnodup
      have hdisjoint : ∀ a, decide (f a = k) = true → decide (f a ∈ ks) = false := by
        intro a ha
        rw [of_decide_eq_true ha]
        exact decide_eq_false hk
      rw [List.map_cons, List.sum_cons, ih hnodup, ← countP_or hdisjoint]
      exact List.countP_congr fun a _ => by simp

variable {K V : Type*} [LinearOrder K]

/-- The first `n` different keys of a list, in the order they first came. -/
def firstKeys (n : ℕ) (l : List K) : List K :=
  l.foldl (fun ks k => if k ∈ ks ∨ n ≤ ks.length then ks else ks ++ [k]) []

namespace firstKeys

variable {n : ℕ} {l : List K} {k : K}

theorem snoc (n : ℕ) (l : List K) (k : K) : firstKeys n (l ++ [k]) =
    if k ∈ firstKeys n l ∨ n ≤ (firstKeys n l).length then firstKeys n l else firstKeys n l ++ [k] := by
  rw [firstKeys, List.foldl_append]
  rfl

theorem length_le (n : ℕ) (l : List K) : (firstKeys n l).length ≤ n := by
  induction l using List.reverseRecOn with
  | nil => exact Nat.zero_le n
  | append_singleton l k ih =>
      rw [snoc]
      split_ifs with h
      · exact ih
      · rw [List.length_append, List.length_singleton]
        omega

theorem nodup (n : ℕ) (l : List K) : (firstKeys n l).Nodup := by
  induction l using List.reverseRecOn with
  | nil => exact List.nodup_nil
  | append_singleton l k ih =>
      rw [snoc]
      split_ifs with h
      · exact ih
      · rw [not_or] at h
        rw [← List.concat_eq_append, List.nodup_concat]
        exact ⟨h.1, ih⟩

theorem subset (n : ℕ) (l : List K) : firstKeys n l ⊆ l := by
  induction l using List.reverseRecOn with
  | nil => exact List.Subset.refl _
  | append_singleton l k ih =>
      rw [snoc]
      split_ifs with h
      · exact List.subset_append_of_subset_left _ ih
      · exact List.append_subset.mpr ⟨List.subset_append_of_subset_left _ ih, List.subset_append_right _ _⟩

/-- A key is among them, or there is no room for it. -/
theorem mem_or_full (hk : k ∈ l) : k ∈ firstKeys n l ∨ n ≤ (firstKeys n l).length := by
  induction l using List.reverseRecOn with
  | nil => exact absurd hk List.not_mem_nil
  | append_singleton l k' ih =>
      rw [snoc]
      split_ifs with h
      · obtain hk | hk := List.mem_append.mp hk
        · exact ih hk
        · rw [List.mem_singleton.mp hk]
          exact h
      · obtain hk | hk := List.mem_append.mp hk
        · obtain hmem | hfull := ih hk
          · exact .inl (List.mem_append_left _ hmem)
          · exact absurd (.inr hfull) h
        · exact .inl (List.mem_append_right _ hk)

end firstKeys

namespace Capped

/-- An update: the key, and what it makes of the value that is there. -/
abbrev Update (K V : Type*) := K × (Option V → V)

/-- Update a key that has a value, or one there is room for. -/
def upsert (n : ℕ) (m : SortedMap K V) (u : Update K V) : SortedMap K V :=
  if (m.get u.1).isSome = true ∨ m.entries.length < n then m.insert u.1 (u.2 (m.get u.1)) else m

def build (n : ℕ) (us : List (Update K V)) : SortedMap K V := us.foldl (upsert n) .empty

/-- What the updates of a key make of it, without a cap. -/
def value (us : List (Update K V)) (k : K) : Option V :=
  us.foldl (fun v u => if u.1 = k then some (u.2 v) else v) none

def keys (us : List (Update K V)) : List K := us.map Prod.fst

variable {n : ℕ} {us : List (Update K V)} {u : Update K V} {k : K}

theorem build_snoc (n : ℕ) (us : List (Update K V)) (u : Update K V) : build n (us ++ [u]) = upsert n (build n us) u := by
  rw [build, List.foldl_append]
  rfl

theorem value_snoc (us : List (Update K V)) (u : Update K V) (k : K) :
    value (us ++ [u]) k = if u.1 = k then some (u.2 (value us k)) else value us k := by
  rw [value, List.foldl_append]
  rfl

omit [LinearOrder K] in
theorem keys_snoc (us : List (Update K V)) (u : Update K V) : keys (us ++ [u]) = keys us ++ [u.1] := by
  simp [keys]

/-- A key has a value where it was updated. -/
theorem isSome_value : (value us k).isSome = true ↔ k ∈ keys us := by
  induction us using List.reverseRecOn with
  | nil => simp [value, keys]
  | append_singleton us u ih =>
      rw [value_snoc, keys_snoc, List.mem_append, List.mem_singleton]
      split_ifs with hk
      · simp [hk]
      · rw [ih]
        simp [Ne.symm hk]

/-- A map whose keys are the first `n` different ones is as long as their list. -/
theorem length_of_keys {m : SortedMap K V} {l : List K} (h : ∀ k, (m.get k).isSome = true ↔ k ∈ firstKeys n l) :
    m.entries.length = (firstKeys n l).length := by
  have hperm : m.keys.Perm (firstKeys n l) := by
    refine (List.perm_ext_iff_of_nodup m.nodup_keys (firstKeys.nodup n l)).mpr fun k => ?_
    rw [← h k]
    exact SortedMap.mem_keys
  rw [← hperm.length_eq, SortedMap.keys, List.length_map]

/-- **The table is exact on the first keys, and has no others.** -/
theorem get_build (n : ℕ) (us : List (Update K V)) (k : K) :
    (build n us).get k = if k ∈ firstKeys n (keys us) then value us k else none := by
  induction us using List.reverseRecOn generalizing k with
  | nil => rfl
  | append_singleton us u ih =>
      have hsome : ∀ k, ((build n us).get k).isSome = true ↔ k ∈ firstKeys n (keys us) := by
        intro k
        rw [ih k]
        split_ifs with hk
        · exact ⟨fun _ => hk, fun _ => isSome_value.mpr (firstKeys.subset n _ hk)⟩
        · exact ⟨fun h => (by cases h), fun h => absurd h hk⟩
      have hlength := length_of_keys hsome
      rw [build_snoc, upsert, keys_snoc, value_snoc, hlength]
      by_cases htracked : u.1 ∈ firstKeys n (keys us)
      · -- the key has a value
        have hfirst : firstKeys n (keys us ++ [u.1]) = firstKeys n (keys us) := by
          rw [firstKeys.snoc, if_pos (.inl htracked)]
        rw [hfirst, if_pos (.inl ((hsome u.1).mpr htracked)), SortedMap.get_insert, ih k, ih u.1, if_pos htracked]
        by_cases hk : k = u.1
        · subst hk
          rw [if_pos rfl, if_pos htracked, if_pos rfl]
        · rw [if_neg hk, if_neg (Ne.symm hk)]
      · have hnone : ¬ ((build n us).get u.1).isSome = true := fun h => htracked ((hsome u.1).mp h)
        by_cases hfull : n ≤ (firstKeys n (keys us)).length
        · -- it is refused
          have hfirst : firstKeys n (keys us ++ [u.1]) = firstKeys n (keys us) := by
            rw [firstKeys.snoc, if_pos (.inr hfull)]
          rw [hfirst, if_neg (not_or.mpr ⟨hnone, by omega⟩), ih k]
          by_cases hk : k = u.1
          · subst hk
            rw [if_neg htracked, if_neg htracked]
          · rw [if_neg (Ne.symm hk)]
        · -- it is new, so nothing has updated it before
          have hfirst : firstKeys n (keys us ++ [u.1]) = firstKeys n (keys us) ++ [u.1] := by
            rw [firstKeys.snoc, if_neg (not_or.mpr ⟨htracked, hfull⟩)]
          have hfresh : value us u.1 = none := by
            rw [← Option.not_isSome_iff_eq_none, isSome_value]
            intro hmem
            obtain h | h := firstKeys.mem_or_full (n := n) hmem
            · exact htracked h
            · exact hfull h
          rw [hfirst, if_pos (.inr (by omega)), SortedMap.get_insert, ih k, ih u.1, if_neg htracked]
          by_cases hk : k = u.1
          · subst hk
            rw [if_pos rfl, if_pos (List.mem_append_right _ (List.mem_singleton_self _)), if_pos rfl, hfresh]
          · rw [if_neg hk, if_neg (Ne.symm hk)]
            simp [hk]

/-- The keys of the table. -/
theorem isSome_get_build : ((build n us).get k).isSome = true ↔ k ∈ firstKeys n (keys us) := by
  rw [get_build]
  split_ifs with hk
  · exact ⟨fun _ => hk, fun _ => isSome_value.mpr (firstKeys.subset n _ hk)⟩
  · exact ⟨fun h => (by cases h), fun h => absurd h hk⟩

theorem length_build_le (n : ℕ) (us : List (Update K V)) : (build n us).entries.length ≤ n := by
  rw [length_of_keys fun _ => isSome_get_build]
  exact firstKeys.length_le n _

/-- The updates that come to nothing. -/
def refused (n : ℕ) (us : List (Update K V)) : ℕ := us.countP fun u => u.1 ∉ firstKeys n (keys us)

/-- An update is refused where the table is full and its key is not in it. -/
theorem refused_snoc (n : ℕ) (us : List (Update K V)) (u : Update K V) : refused n (us ++ [u]) =
    refused n us + if ((build n us).get u.1).isSome = true ∨ (build n us).entries.length < n then 0 else 1 := by
  have hlength : (build n us).entries.length = (firstKeys n (keys us)).length := length_of_keys fun _ => isSome_get_build
  have hsplit : refused n (us ++ [u]) = us.countP (fun v => v.1 ∉ firstKeys n (keys us ++ [u.1])) +
      if u.1 ∈ firstKeys n (keys us ++ [u.1]) then 0 else 1 := by
    rw [refused, keys_snoc, List.countP_append, List.countP_singleton]
    split_ifs with h <;> simp_all
  simp only [isSome_get_build, hlength]
  rw [hsplit]
  by_cases htracked : u.1 ∈ firstKeys n (keys us)
  · have hfirst : firstKeys n (keys us ++ [u.1]) = firstKeys n (keys us) := by
      rw [firstKeys.snoc, if_pos (.inl htracked)]
    rw [hfirst, if_pos htracked, if_pos (.inl htracked), refused]
  · by_cases hfull : n ≤ (firstKeys n (keys us)).length
    · have hfirst : firstKeys n (keys us ++ [u.1]) = firstKeys n (keys us) := by
        rw [firstKeys.snoc, if_pos (.inr hfull)]
      rw [hfirst, if_neg htracked, if_neg (not_or.mpr ⟨htracked, by omega⟩), refused]
    · -- nothing was refused so far
      have hfirst : firstKeys n (keys us ++ [u.1]) = firstKeys n (keys us) ++ [u.1] := by
        rw [firstKeys.snoc, if_neg (not_or.mpr ⟨htracked, hfull⟩)]
      have hall : ∀ v ∈ us, v.1 ∈ firstKeys n (keys us) := fun v hv =>
        (firstKeys.mem_or_full (List.mem_map_of_mem hv)).resolve_right hfull
      have hnone : refused n us = 0 := List.countP_eq_zero.mpr fun v hv => by simp [hall v hv]
      have hnone' : us.countP (fun v => v.1 ∉ firstKeys n (keys us) ++ [u.1]) = 0 :=
        List.countP_eq_zero.mpr fun v hv => by simp [hall v hv]
      rw [hfirst, hnone, hnone', if_pos (List.mem_append_right _ (List.mem_singleton_self _)),
        if_pos (.inr (by omega))]

end Capped

end Havuz.Lib
