import Havuz.Families.Model

/-!
# What a failed rebuild leaves behind

`rebuild_pools` returns at the first pool that does not build, before its removal pass, and `reload_pool`
takes the old entry out before it rebuilds.

* `failed_change_iff`: after a failure the live pools are what they should be exactly when no live pool
  had to go, no pool that builds comes behind one that does not, and the pool to be reloaded was not live.
* `syncAll_error`: the families behind the one that fails are not looked at.
-/

namespace Havuz.Families

open Lib (SortedMap)

variable {d : Driver} {fails : Fails} {s : State} {live : Live}

/-- What is owed after a failure: the live pools that are still wanted stay live and are not drained,
the others are drained and removed, and what builds is live. -/
structure Survives (d : Driver) (fails : Fails) (s : State) (live live' : Live) : Prop where
  kept : ∀ name e, live.pools.get name = some e → (name, e) ∉ live.drained → d.wants s name ≠ none →
    live'.pools.get name = some e ∧ (name, e) ∉ live'.drained
  removed : ∀ name e, live.pools.get name = some e → d.wants s name = none →
    live'.pools.get name = none ∧ (name, e) ∈ live'.drained
  built : ∀ name c, d.wants s name = some c → fails name c = none → live'.pools.get name ≠ none

/-- The failure comes too late to do harm: nothing has to be removed, and every missing pool behind one
that fails would fail as well. -/
structure Harmless (d : Driver) (fails : Fails) (s : State) (live : Live) : Prop where
  current : ∀ name e, live.pools.get name = some e → d.wants s name ≠ none
  last : ∀ a ca b cb, d.wants s a = some ca → d.wants s b = some cb →
    live.pools.get a = none → live.pools.get b = none → a < b → fails a ca ≠ none → fails b cb ≠ none

namespace Live

theorem buildMissing_drained (l : List (Text × PoolConfig)) (live : Live) :
    (buildMissing d fails l live).1.drained = live.drained := by
  induction l generalizing live with
  | nil => rfl
  | cons p rest ih =>
    obtain ⟨name, config⟩ := p
    by_cases htries : Tries d live name config
    · rw [tries_cases htries]
      split
      · rfl
      · rw [ih]
        rfl
    · rw [not_tries_cases htries, ih]

/-- A missing pool the family wants is built exactly when it and every missing one before it build. -/
theorem buildMissing_wanted {n : Text} {c : PoolConfig} (hw : d.wants s n = some c)
    (hmissing : live.pools.get n = none) :
    (buildMissing d fails s.pools.entries live).1.pools.get n ≠ none ↔
      ∀ m c', d.wants s m = some c' → live.pools.get m = none → m ≤ n → fails m c' = none := by
  have hget := Driver.wants_eq_some.mp hw
  rw [← Option.isSome_iff_ne_none,
    buildMissing_reaches s.pools.sorted (SortedMap.mem_of_get hget.1) ⟨hget.2, hmissing⟩]
  constructor
  · intro hall m c' hm hm' hle
    have hget' := Driver.wants_eq_some.mp hm
    exact hall m c' (SortedMap.mem_of_get hget'.1) ⟨hget'.2, hm'⟩ hle
  · intro hall m c' hm hm' hle
    apply hall m c' _ hm'.2 hle
    exact Driver.wants_eq_some.mpr ⟨SortedMap.get_of_mem hm, hm'.1⟩

/-- After a failure nothing has been removed, so what is owed comes down to `Harmless`. -/
theorem survives_iff_of_error {e : Text} (h : (rebuild d fails s live).2 = .error e) :
    Survives d fails s live (rebuild d fails s live).1 ↔ Harmless d fails s live := by
  rw [rebuild_error h]
  constructor
  · intro hs
    constructor
    · intro name entry hentry hw
      have hgone := (hs.removed name entry hentry hw).1
      rw [buildMissing_keeps hentry] at hgone
      cases hgone
    · intro a ca b cb ha hb hamiss hbmiss hlt hfails hbuilds
      have hbuilt := (buildMissing_wanted hb hbmiss).mp (hs.built b cb hb hbuilds)
      exact hfails (hbuilt a ca ha hamiss (le_of_lt hlt))
  · intro hh
    constructor
    · intro name entry hentry hlive _
      rw [buildMissing_drained]
      exact ⟨buildMissing_keeps hentry, hlive⟩
    · intro name entry hentry hw
      exact absurd hw (hh.current name entry hentry)
    · intro name c hw hbuilds
      match hl : live.pools.get name with
      | some entry =>
        rw [buildMissing_keeps hl]
        simp
      | none =>
        rw [buildMissing_wanted hw hl]
        intro m c' hm hmiss hle
        rcases lt_or_eq_of_le hle with hlt | rfl
        · by_contra hfails
          exact hh.last m c' name c hm hw hmiss hl hlt hfails hbuilds
        · rw [hw] at hm
          cases hm
          exact hbuilds

/-- Taking out a pool that is not there changes nothing. -/
theorem takeOut_of_none {name : Text} (h : live.pools.get name = none) : live.takeOut d name = live := by
  have hne : ∀ e ∈ live.pools.entries, e.1 ≠ name := by
    rintro e he rfl
    rw [SortedMap.get_of_mem he] at h
    cases h
  have hretired : (live.pools.entries.filter fun e => decide (e.1 = name)) = [] := by
    rw [List.filter_eq_nil_iff]
    intro e he
    simp [hne e he]
  have hkept : (live.keep fun e => decide (e.1 ≠ name)) = live := by
    obtain ⟨pools, next, drained, shutdown, forgotten, fresh⟩ := live
    simp only [keep, mk.injEq, and_true]
    apply SortedMap.filter_eq_self
    intro e he
    simp [hne e he]
  unfold takeOut
  simp only [hretired, hkept, List.append_nil]
  split <;> rfl

/-- A reload that fails has lost the group it was to replace: if there is one again, it is a new one. -/
theorem reload_loses {name : Text} {entry : Entry} (hentry : live.pools.get name = some entry) {e : Text}
    (h : (reload d fails name s live).2 = .error e) :
    (reload d fails name s live).1.pools.get name ≠ some entry := by
  unfold reload at h ⊢
  rw [rebuild_error h]
  intro hget
  rcases buildMissing_built hget with hold | ⟨-, -, hserial⟩
  · rw [get_takeOut, if_pos rfl] at hold
    cases hold
  · have hfresh : entry.serial < live.next := live.fresh _ (SortedMap.mem_of_get hentry)
    rw [takeOut_next] at hserial
    omega

end Live

/-- **When a failed `sync_pools` or `reload_pool` does no harm.** A failed sync leaves what it owes
exactly when it is `Harmless`; a failed reload leaves that, and the previous group in the map, exactly
when there was no previous group and it is `Harmless`. -/
theorem failed_change_iff (d : Driver) (fails : Fails) (s : State) (live : Live) :
    (∀ e, (live.rebuild d fails s).2 = .error e →
      (Survives d fails s live (live.rebuild d fails s).1 ↔ Harmless d fails s live)) ∧
    ∀ name e, (live.reload d fails name s).2 = .error e →
      ((Survives d fails s live (live.reload d fails name s).1 ∧
        ∀ entry, live.pools.get name = some entry →
          (live.reload d fails name s).1.pools.get name = some entry) ↔
      live.pools.get name = none ∧ Harmless d fails s live) := by
  refine ⟨fun e h => Live.survives_iff_of_error h, fun name e h => ?_⟩
  match hl : live.pools.get name with
  | some entry =>
    constructor
    · rintro ⟨-, hprevious⟩
      exact absurd (hprevious entry rfl) (Live.reload_loses hl h)
    · rintro ⟨hnone, -⟩
      cases hnone
  | none =>
    unfold Live.reload at h ⊢
    rw [Live.takeOut_of_none hl] at h ⊢
    rw [Live.survives_iff_of_error h]
    simp

/-- Pool `b` cannot be built. -/
def bFails : Fails := fun name _ => if name = ['b'] then some "tls".toList else none

/-- A failing pool behind one that is live does no harm. -/
theorem failed_change_iff_last :
    Survives .pg bFails (stateOf [(['a'], samplePool ['x']), (['b'], samplePool ['x'])])
      (Live.empty.add ['a'] (samplePool ['x']))
      ((Live.empty.add ['a'] (samplePool ['x'])).rebuild .pg bFails
        (stateOf [(['a'], samplePool ['x']), (['b'], samplePool ['x'])])).1 := by
  refine ((failed_change_iff .pg bFails _ _).1 "tls".toList (by decide)).mpr ⟨?_, ?_⟩
  · intro name e hget
    rw [Live.get_add] at hget
    split at hget
    case isTrue heq =>
      subst heq
      decide
    case isFalse => cases hget
  · intro a ca b cb ha hb hamiss hbmiss hlt hfails
    have hb' : a = ['b'] := by
      by_contra hne
      exact hfails (by simp [bFails, hne])
    have hmem := SortedMap.mem_of_get (Driver.wants_eq_some.mp hb).1
    have hkeys : (b, cb) ∈ [(['a'], samplePool ['x']), (['b'], samplePool ['x'])] := hmem
    rw [hb'] at hlt
    rcases List.mem_cons.mp hkeys with heq | hkeys
    · cases heq
      exact absurd hlt (by decide)
    · cases List.mem_singleton.mp hkeys
      exact absurd hlt (by decide)

/-- The claim that a failed sync or reload breaks nothing else fails: `z` was deleted and stays live
and undrained, and `c` is never built, because `b` in front of it has a bad setting. -/
theorem not_failed_change_harmless :
    ¬ ∀ (d : Driver) (fails : Fails) (s : State) (live : Live) (e : Text), s.validate = .ok () →
      (live.rebuild d fails s).2 = .error e → Survives d fails s live (live.rebuild d fails s).1 := by
  intro hclaim
  have hs := hclaim .pg bFails (stateOf [(['b'], samplePool ['x']), (['c'], samplePool ['x'])])
    (Live.empty.add ['z'] (samplePool ['x'])) "tls".toList (by decide) (by decide)
  exact hs.built ['c'] (samplePool ['x']) (by decide) (by decide) (by decide)

/-! ## Across the families -/

/-- **The families behind the one that fails are not looked at.** Those in front of it have been
rebuilt, the failing one got as far as `rebuild` does. -/
theorem syncAll_error {families : List (Driver × Fails × Live)} {e : Text}
    (h : (syncAll s families).2 = .error e) :
    ∃ before f after, families = before ++ f :: after ∧
      (∀ g ∈ before, (g.2.2.rebuild g.1 g.2.1 s).2 = .ok ()) ∧
      (∃ e', (f.2.2.rebuild f.1 f.2.1 s).2 = .error e') ∧
      (syncAll s families).1 =
        (before ++ [f]).map (fun g => (g.1, g.2.1, (g.2.2.rebuild g.1 g.2.1 s).1)) ++ after := by
  induction families with
  | nil => cases h
  | cons f rest ih =>
    obtain ⟨d, fails, live⟩ := f
    rw [syncAll] at h ⊢
    split at h
    case h_1 live' e' heq =>
      refine ⟨[], (d, fails, live), rest, rfl, by simp, ⟨e', by rw [heq]⟩, ?_⟩
      simp [heq]
    case h_2 live' heq =>
      obtain ⟨before, f, after, rfl, hbefore, hf, hres⟩ := ih h
      refine ⟨(d, fails, live) :: before, f, after, rfl, ?_, hf, ?_⟩
      · intro g hg
        rcases List.mem_cons.mp hg with rfl | hg
        · rw [heq]
        · exact hbefore g hg
      · simp only [hres]
        simp [heq]

end Havuz.Families
