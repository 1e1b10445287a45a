import Havuz.Families.Requests

/-!
# The pool map converges to the configuration

A rebuild works from the state it loaded before it had the lock, and leaves a name that is in the map
alone, whatever it was built from. `Orderly` says when this is made up for: somebody else who is on the
way will still see to that name. Then nothing is left to see to once every request is done
(`live_map_converges`).
-/

namespace Havuz.Families

open Lib

/-! ## Who will still see to a name -/

/-- A pool is live that was built from another configuration than the wanted one. -/
def outdated (wanted held : Option PoolConfig) : Bool :=
  match wanted, held with
  | some c, some h => c ≠ h
  | _, _ => false

/-- The request will bring the entry of `n` in line, `held` being what the entry is built from now: it
will take it out and build it anew, or it will look at the present configuration of `n` and the entry is
not an outdated one, which a rebuild leaves alone. -/
def Request.mends (d : Driver) (s : State) (n : Text) (held : Option PoolConfig) (r : Request) : Bool :=
  match r.pc with
  | .updated .sync => !outdated (d.wants s n) held
  | .updated .reload => r.name = n || !outdated (d.wants s n) held
  | .removed => !outdated (d.wants s n) held
  | .loaded snapshot => d.wants snapshot n = d.wants s n && !outdated (d.wants s n) held
  | _ => false

/-- The state a rebuild has loaded. -/
def Pc.snapshot : Pc → Option State
  | .loaded snapshot => some snapshot
  | _ => none

/-- What the live entry of a name was built from. -/
def Live.held (live : Live) (n : Text) : Option PoolConfig := (live.pools.get n).map Entry.config

/-- The condition for convergence, about the step a request is about to take:

* a change that alters what the family wants under a name is seen to by its own request, or by another
  one on the way: a live entry built from another configuration is to be taken out by a reload;
* a rebuild builds only what the configuration has now, or what another request will mend;
* a rebuild drops only what the configuration no longer wants, or what another request will mend. -/
structure Orderly (d : Driver) (w : Procs Shared Request) (l : ℕ × Fails) : Prop where
  changes : ∀ r ∈ w.procs[l.1]?, ∀ follow ∈ r.about d, ∀ s' ∈ publish r w.shared.store,
    d.wants s' r.name ≠ d.wants w.shared.store r.name →
      { r with pc := .updated follow }.mends d s' r.name (w.shared.live.held r.name) = true ∨
      ∃ q ∈ w.procs.eraseIdx l.1, q.mends d s' r.name (w.shared.live.held r.name) = true
  builds : ∀ r ∈ w.procs[l.1]?, ∀ snapshot ∈ r.pc.snapshot,
    ∀ e ∈ snapshot.pools.entries, d.wants snapshot e.1 ≠ none → w.shared.live.held e.1 = none →
      d.wants w.shared.store e.1 = some e.2 ∨
      ∃ q ∈ w.procs.eraseIdx l.1, q.mends d w.shared.store e.1 (some e.2) = true
  drops : ∀ r ∈ w.procs[l.1]?, ∀ snapshot ∈ r.pc.snapshot,
    ∀ e ∈ w.shared.live.pools.entries, d.wants snapshot e.1 = none →
      d.wants w.shared.store e.1 = none ∨
      ∃ q ∈ w.procs.eraseIdx l.1, q.mends d w.shared.store e.1 none = true

instance (d : Driver) (w : Procs Shared Request) (l : ℕ × Fails) : Decidable (Orderly d w l) :=
  decidable_of_iff
    ((∀ r ∈ w.procs[l.1]?, ∀ follow ∈ r.about d, ∀ s' ∈ publish r w.shared.store,
        d.wants s' r.name ≠ d.wants w.shared.store r.name →
          { r with pc := .updated follow }.mends d s' r.name (w.shared.live.held r.name) = true ∨
          ∃ q ∈ w.procs.eraseIdx l.1, q.mends d s' r.name (w.shared.live.held r.name) = true) ∧
      (∀ r ∈ w.procs[l.1]?, ∀ snapshot ∈ r.pc.snapshot,
        ∀ e ∈ snapshot.pools.entries, d.wants snapshot e.1 ≠ none → w.shared.live.held e.1 = none →
          d.wants w.shared.store e.1 = some e.2 ∨
          ∃ q ∈ w.procs.eraseIdx l.1, q.mends d w.shared.store e.1 (some e.2) = true) ∧
      ∀ r ∈ w.procs[l.1]?, ∀ snapshot ∈ r.pc.snapshot,
        ∀ e ∈ w.shared.live.pools.entries, d.wants snapshot e.1 = none →
          d.wants w.shared.store e.1 = none ∨
          ∃ q ∈ w.procs.eraseIdx l.1, q.mends d w.shared.store e.1 none = true)
    ⟨fun h => ⟨h.1, h.2.1, h.2.2⟩, fun h => ⟨h.changes, h.builds, h.drops⟩⟩

/-! ## One step -/

theorem held_takeOut (d : Driver) (live : Live) (name n : Text) :
    (live.takeOut d name).held n = if n = name then none else live.held n := by
  rw [Live.held, Live.get_takeOut]
  split <;> rfl

theorem held_rebuild {d : Driver} {fails : Fails} {s : State} {live : Live}
    (h : (live.rebuild d fails s).2 = .ok ()) (n : Text) :
    (live.rebuild d fails s).1.held n =
      match d.wants s n with
      | none => none
      | some c => some ((live.held n).getD c) :=
  Live.rebuild_get h n

@[simp] theorem outdated_none (wanted : Option PoolConfig) : outdated wanted none = false := by
  cases wanted <;> rfl

@[simp] theorem outdated_some (c h : PoolConfig) : outdated (some c) (some h) = decide (c ≠ h) := rfl

/-- Whether a request mends a name depends on what the configuration has under that name only. -/
theorem Request.mends_congr {d : Driver} {s s' : State} {n : Text} (h : d.wants s' n = d.wants s n)
    (held : Option PoolConfig) (r : Request) : r.mends d s' n held = r.mends d s n held := by
  unfold Request.mends
  rw [h]

/-- A name is settled when its entry is the wanted one or somebody on the way will see to it. -/
def Settled (d : Driver) (w : Procs Shared Request) (n : Text) : Prop :=
  w.shared.live.held n = d.wants w.shared.store n ∨
    ∃ q ∈ w.procs, q.mends d w.shared.store n (w.shared.live.held n) = true

/-- What holds in every state of an orderly run. -/
def Converging (d : Driver) (w : Procs Shared Request) : Prop :=
  (∃ r ∈ w.procs, r.pc = .failed) ∨ ∀ n, Settled d w n

section Step

variable {d : Driver} {w : Procs Shared Request} {i : ℕ} {r : Request} {n : Text}

/-- Nothing changes for `n`, and the request that moved still mends it if it did before. -/
theorem Settled.frame (h : Settled d w n) (hr : w.procs[i]? = some r) {sh' : Shared} {r' : Request}
    (hwants : d.wants sh'.store n = d.wants w.shared.store n)
    (hheld : sh'.live.held n = w.shared.live.held n)
    (hmends : r.mends d w.shared.store n (w.shared.live.held n) = true →
      sh'.live.held n = d.wants sh'.store n ∨ r'.mends d sh'.store n (sh'.live.held n) = true) :
    Settled d ⟨sh', w.procs.set i r'⟩ n := by
  obtain hagree | ⟨q, hq, hmend⟩ := h
  · exact .inl (hheld.trans (hagree.trans hwants.symm))
  · rcases eq_or_mem_eraseIdx hr hq with rfl | hother
    · rcases hmends hmend with hagree | hmend'
      · exact .inl hagree
      · exact .inr ⟨r', mem_set_self r' hr, hmend'⟩
    · refine .inr ⟨q, mem_set_of_mem_eraseIdx hother, ?_⟩
      rw [hheld, Request.mends_congr hwants]
      exact hmend

/-- Another request sees to `n`. -/
theorem Settled.of_other {sh' : Shared} {r' : Request}
    (h : ∃ q ∈ w.procs.eraseIdx i, q.mends d sh'.store n (sh'.live.held n) = true) :
    Settled d ⟨sh', w.procs.set i r'⟩ n := by
  obtain ⟨q, hq, hmend⟩ := h
  exact .inr ⟨q, mem_set_of_mem_eraseIdx hq, hmend⟩

/-- A request that is about to publish has nothing on the way yet. -/
theorem Request.mends_about {follow : Follow} (h : r.about d = some follow) (s : State)
    (held : Option PoolConfig) : r.mends d s n held = false := by
  unfold Request.about at h
  unfold Request.mends
  split at h
  case h_1 => cases h
  case h_2 hpc _ => rw [hpc]
  case h_3 family hpc => rw [hpc]
  case h_4 => cases h

theorem Settled.changes (h : Settled d w n) {fails : Fails} (ok : Orderly d w (i, fails))
    (hr : w.procs[i]? = some r) {follow : Follow} {s' : State} (habout : r.about d = some follow)
    (hpublish : publish r w.shared.store = some s') :
    Settled d ⟨{ w.shared with store := s' }, w.procs.set i { r with pc := .updated follow }⟩ n := by
  by_cases hsame : d.wants s' n = d.wants w.shared.store n
  · refine h.frame hr hsame (by rfl) fun hmend => ?_
    rw [Request.mends_about habout] at hmend
    cases hmend
  · have hname : n = r.name := by
      by_contra hne
      exact hsame (publish_wants hpublish hne)
    subst hname
    rcases ok.changes r hr follow habout s' hpublish hsame with hself | hother
    · exact .inr ⟨_, mem_set_self _ hr, hself⟩
    · exact .of_other hother

theorem Settled.rebuilds (h : Settled d w n) {fails : Fails} (ok : Orderly d w (i, fails))
    (hr : w.procs[i]? = some r) {snapshot : State} (hpc : r.pc = .loaded snapshot)
    (hok : (w.shared.live.rebuild d fails snapshot).2 = .ok ()) :
    Settled d ⟨{ w.shared with live := (w.shared.live.rebuild d fails snapshot).1 },
      w.procs.set i { r with pc := .done }⟩ n := by
  have hsnap : snapshot ∈ r.pc.snapshot := by rw [hpc]; rfl
  have hheld := held_rebuild hok n
  -- Where the rebuild leaves `n` alone, the request itself mends `n` only if there is nothing to do.
  have hself : r.mends d w.shared.store n (w.shared.live.held n) = true →
      d.wants snapshot n = d.wants w.shared.store n ∧
        outdated (d.wants w.shared.store n) (w.shared.live.held n) = false := by
    intro hmend
    unfold Request.mends at hmend
    rw [hpc] at hmend
    simpa using hmend
  match hw : d.wants snapshot n, hl : w.shared.live.held n with
  | none, none =>
    rw [hw] at hheld
    refine h.frame hr (by rfl) (hheld.trans hl.symm) fun hmend => ?_
    refine .inl (hheld.trans ?_)
    rw [← (hself hmend).1, hw]
  | some c, some held =>
    rw [hw, hl] at hheld
    refine h.frame hr (by rfl) (hheld.trans hl.symm) fun hmend => ?_
    obtain ⟨hwants, hnot⟩ := hself hmend
    refine .inl (hheld.trans ?_)
    rw [← hwants, hw, hl, outdated_some, decide_eq_false_iff_not, not_not] at hnot
    rw [← hwants, hw, hnot]
    rfl
  | none, some held =>
    rw [hw] at hheld
    obtain ⟨e, he, -⟩ := Option.map_eq_some_iff.mp hl
    rcases ok.drops r hr snapshot hsnap (n, e) (SortedMap.mem_of_get he) hw with hgone | hother
    · exact .inl (hheld.trans hgone.symm)
    · apply Settled.of_other
      rw [hheld]
      exact hother
  | some c, none =>
    rw [hw, hl] at hheld
    have hmem := SortedMap.mem_of_get (Driver.wants_eq_some.mp hw).1
    rcases ok.builds r hr snapshot hsnap (n, c) hmem (by rw [hw]; simp) hl with hnow | hother
    · exact .inl (hheld.trans hnow.symm)
    · apply Settled.of_other
      rw [hheld]
      exact hother

theorem Converging.step {l : ℕ × Fails} (h : Converging d w) (ok : Orderly d w l) :
    Converging d (step d w l) := by
  obtain hsame | ⟨r, sh', r', hr, hact, hstep⟩ := w.step_cases (act d) l
  · rw [Families.step, hsame]
    exact h
  rw [Families.step, hstep]
  obtain ⟨q, hq, hfailed⟩ | hsettled := h
  · -- A failed request stays failed, so it is not the one that moved.
    refine .inl ⟨q, ?_, hfailed⟩
    rcases eq_or_mem_eraseIdx hr hq with rfl | hother
    · unfold act at hact
      rw [hfailed] at hact
      cases hact
    · exact mem_set_of_mem_eraseIdx hother
  · cases act_course hact with
    | gives_up hpc => exact .inl ⟨r', mem_set_self r' hr, hpc⟩
    | looks family hpc =>
      refine .inr fun n => (hsettled n).frame hr (by rfl) (by rfl) fun hmend => ?_
      unfold Request.mends at hmend
      rw [hpc] at hmend
      cases hmend
    | changes follow s' habout hpublish =>
      exact .inr fun n => (hsettled n).changes ok hr habout hpublish
    | loads hpc =>
      refine .inr fun n => (hsettled n).frame hr (by rfl) (by rfl) fun hmend => .inr ?_
      unfold Request.mends at hmend ⊢
      rcases hpc with hpc | hpc <;> simpa [hpc] using hmend
    | takes_out hpc =>
      refine .inr fun n => ?_
      by_cases hn : n = r.name
      · refine .inr ⟨_, mem_set_self _ hr, ?_⟩
        unfold Request.mends
        simp [held_takeOut, hn]
      · have hheld : (w.shared.live.takeOut d r.name).held n = w.shared.live.held n := by
          rw [held_takeOut, if_neg hn]
        refine (hsettled n).frame hr (by rfl) hheld fun hmend => .inr ?_
        unfold Request.mends at hmend ⊢
        simpa [hpc, hheld, Ne.symm hn] using hmend
    | leaves hpc =>
      refine .inr fun n => (hsettled n).frame hr (by rfl) (by rfl) fun hmend => ?_
      unfold Request.mends at hmend
      rw [hpc] at hmend
      cases hmend
    | rebuilds snapshot hpc hok =>
      exact .inr fun n => (hsettled n).rebuilds ok hr hpc hok

end Step

/-! ## Runs -/

/-- **The live pools converge to the configuration.** Take any number of requests and any run of them
whose steps are all orderly. Whenever all are done without error, a name is live exactly when the
configuration has an enabled pool of the family under it, and its entry was built from that
configuration. -/
theorem live_map_converges (d : Driver) (s : State) (live : Live) (hlive : ∀ n, live.held n = d.wants s n)
    (requests : List (Text × Change)) {ls : List (ℕ × Fails)}
    (hrun : Along (step d) (Orderly d) (arriving s live requests) ls)
    (hdone : ∀ r ∈ (run (step d) (arriving s live requests) ls).procs, r.pc = .done) (n : Text) :
    (run (step d) (arriving s live requests) ls).shared.live.held n =
      d.wants (run (step d) (arriving s live requests) ls).shared.store n := by
  have hinv : Converging d (run (step d) (arriving s live requests) ls) := by
    apply hrun.invariant
    · exact fun w l hw ok => hw.step ok
    · exact .inr fun n => .inl (hlive n)
  obtain ⟨r, hr, hfailed⟩ | hsettled := hinv
  · rw [hdone r hr] at hfailed
    cases hfailed
  · obtain hagree | ⟨q, hq, hmend⟩ := hsettled n
    · exact hagree
    · unfold Request.mends at hmend
      rw [hdone q hq] at hmend
      cases hmend

/-- Every pool builds. -/
def builds : Fails := fun _ _ => none

/-- Pool `a` is created and made read-only, and the rebuild of the first request comes in between the
two halves of the reload. -/
theorem live_map_converges_overlapping :
    (run (step .pg) (arriving (stateOf []) .empty
      [(['a'], .create (samplePool ['x'])), (['a'], .patch { readOnly := some true })])
      [(0, builds), (1, builds), (1, builds), (0, builds), (1, builds), (0, builds), (1, builds),
        (1, builds)]).shared.live.held ['a'] = some { samplePool ['x'] with readOnly := true } := by
  rw [live_map_converges .pg (stateOf []) .empty (fun _ => rfl) _ (by decide) (by decide)]
  decide

/-- The claim that no schedule leaves a deleted pool live fails: the create has loaded the state before
the delete and takes the lock after it. -/
theorem not_live_map_converges :
    ¬ ∀ (d : Driver) (s : State) (live : Live), (∀ n, live.held n = d.wants s n) →
      ∀ (requests : List (Text × Change)) (ls : List (ℕ × Fails)),
      (∀ r ∈ (run (step d) (arriving s live requests) ls).procs, r.pc = .done) → ∀ n,
      (run (step d) (arriving s live requests) ls).shared.live.held n =
        d.wants (run (step d) (arriving s live requests) ls).shared.store n := by
  intro hclaim
  have hstale := hclaim .pg (stateOf []) .empty (fun _ => rfl)
    [(['a'], .create (samplePool ['x'])), (['a'], .delete)]
    [(0, builds), (0, builds), (1, builds), (1, builds), (1, builds), (0, builds)] (by decide) ['a']
  revert hstale
  decide

/-- Deleted and created again before the rebuild of the delete: the entry of the old database stays. -/
example :
    let w := run (step .pg) (arriving (stateOf [(['a'], samplePool ['x'])])
      (Live.empty.add ['a'] (samplePool ['x'])) [(['a'], .delete), (['a'], .create (samplePool ['y']))])
      [(0, builds), (1, builds), (1, builds), (1, builds), (0, builds), (0, builds)]
    (∀ r ∈ w.procs, r.pc = .done) ∧ w.shared.live.held ['a'] = some (samplePool ['x']) ∧
      Driver.pg.wants w.shared.store ['a'] = some (samplePool ['y']) := by
  decide

end Havuz.Families
