import Havuz.Breaker.Model

/-!
# One probe at a time

A half-open breaker admits a request when it takes the slot. Moving the breaker to half-open and taking
the slot are two operations, though, and a report clears the slot whether or not it is about the probe.
`Tidy` says that neither comes in between.
-/

namespace Havuz.Breaker

open Lib

/-! ## Counting probes -/

/-- Has moved the breaker to half-open and not taken the slot yet. -/
def Caller.opening (c : Caller) : ℕ :=
  match c.pc with
  | .moved => 1
  | .zeroed => 1
  | _ => 0

/-- The next operation clears the slot. -/
def Pc.clears : Pc → Bool
  | .succeeding => true
  | .failing => true
  | .resetSuccesses => true
  | _ => false

/-- How many requests are out that were admitted in the open or half-open state. -/
def outstanding (w : Procs Breaker Caller) : ℕ := total Caller.probes w.procs

/-- How many callers are between the two operations that open the breaker. -/
def opening (w : Procs Breaker Caller) : ℕ := total Caller.opening w.procs

/-- The condition for one probe at a time: in the half-open state the slot is cleared only when no probe
is out, and taken by a compare-exchange only when nobody is still opening the breaker; and the breaker
is moved to half-open only when neither is the case. -/
structure Tidy (w : Procs Breaker Caller) (l : ℕ × Move) : Prop where
  clears : ∀ c, w.procs[l.1]? = some c → c.pc.clears = true → w.shared.state = .halfOpen →
    outstanding w = 0
  takes : ∀ c, w.procs[l.1]? = some c → c.pc = .sawHalfOpen → w.shared.state = .halfOpen →
    opening w = 0
  moves : ∀ c, w.procs[l.1]? = some c → c.pc = .cooled → w.shared.state = .open →
    outstanding w = 0 ∧ opening w = 0

instance (w : Procs Breaker Caller) (l : ℕ × Move) : Decidable (Tidy w l) :=
  decidable_of_iff
    ((∀ c ∈ w.procs[l.1]?, c.pc.clears = true → w.shared.state = .halfOpen → outstanding w = 0) ∧
      (∀ c ∈ w.procs[l.1]?, c.pc = .sawHalfOpen → w.shared.state = .halfOpen → opening w = 0) ∧
      ∀ c ∈ w.procs[l.1]?, c.pc = .cooled → w.shared.state = .open → outstanding w = 0 ∧ opening w = 0)
    ⟨fun h => ⟨h.1, h.2.1, h.2.2⟩, fun h => ⟨h.clears, h.takes, h.moves⟩⟩

/-! ## One operation -/

/-- What an operation has to do with probes. -/
inductive Course (b : Breaker) (c : Caller) (b' : Breaker) (c' : Caller) : Prop
  /-- The breaker is moved to half-open. -/
  | moves (hpc : c.pc = .cooled) (hstate : b.state = .open) (hprobes : c'.probes = c.probes)
      (hopening : c'.opening = 1)
  /-- The slot is taken by a compare-exchange. -/
  | takes (hpc : c.pc = .sawHalfOpen) (hfree : b.probeInFlight = false) (hstate : b'.state = b.state)
      (htaken : b'.probeInFlight = true) (hprobes : c'.probes = c.probes + 1) (hopening : c'.opening = 0)
  /-- The slot is taken by the caller that opened the breaker. -/
  | arrives (hpc : c.opening = 1) (hstate : b'.state = b.state) (htaken : b'.probeInFlight = true)
      (hprobes : c'.probes = c.probes + 1) (hopening : c'.opening = 0)
  | clears (hpc : c.pc.clears = true) (hstate : b'.state = b.state) (hprobes : c'.probes = c.probes)
      (hopening : c'.opening = 0)
  | other (hslot : b'.probeInFlight = b.probeInFlight)
      (hstate : b'.state = b.state ∨ b'.state ≠ .halfOpen) (hprobes : c'.probes ≤ c.probes)
      (hopening : c'.opening = c.opening)

theorem finish_course {b b' : Breaker} {c c' : Caller} {pc : Pc} {request : Option Admission}
    (hpc : c.pc = .ready) (hnext : Caller.opening { c with pc } = 0)
    (hslot : b'.probeInFlight = b.probeInFlight) (hstate : b'.state = b.state)
    (h : c.finish pc request = some c') : Course b c b' c' := by
  have hready : c.opening = 0 := by rw [Caller.opening, hpc]
  unfold Caller.finish at h
  split at h
  case h_1 =>
    cases h
    exact .other hslot (.inl hstate) le_rfl (hnext.trans hready.symm)
  case h_2 =>
    split at h
    · cases h
      exact .other hslot (.inl hstate) le_rfl (hnext.trans hready.symm)
    · cases h
  case h_3 =>
    split at h
    · cases h
      exact .other hslot (.inl hstate) (Nat.sub_le _ _) (hnext.trans hready.symm)
    · cases h

theorem act_course {cfg : Config} {m : Move} {b b' : Breaker} {c c' : Caller}
    (h : act cfg m b c = some (b', c')) : Course b c b' c' := by
  unfold act at h
  split at h
  case h_1 hpc =>
    have hready : c.opening = 0 := by rw [Caller.opening, hpc]
    split at h <;> cases h <;> exact .other rfl (.inl rfl) le_rfl hready.symm
  case h_2 hpc =>
    obtain ⟨c'', hfinish, heq⟩ := Option.map_eq_some_iff.mp h
    cases heq
    exact finish_course hpc rfl rfl rfl hfinish
  case h_3 hpc =>
    obtain ⟨c'', hfinish, heq⟩ := Option.map_eq_some_iff.mp h
    cases heq
    exact finish_course hpc rfl rfl rfl hfinish
  case h_4 hpc =>
    cases h
    exact .other rfl (.inr (by simp)) le_rfl (by simp [Caller.opening, hpc])
  case h_5 hpc =>
    split at h
    case isTrue =>
      cases h
      exact .other rfl (.inl rfl) le_rfl (by simp [Caller.opening, hpc])
    case isFalse hfree =>
      cases h
      exact .takes hpc (by simpa using hfree) rfl rfl rfl rfl
  case h_7 hpc =>
    split at h
    case isTrue hopen =>
      cases h
      exact .moves hpc hopen rfl rfl
    case isFalse =>
      cases h
      exact .other rfl (.inl rfl) le_rfl (by simp [Caller.opening, hpc])
  case h_9 hpc =>
    cases h
    exact .arrives (by rw [Caller.opening, hpc]) rfl rfl rfl rfl
  case h_10 hpc =>
    cases h
    exact .clears (by rw [hpc]; rfl) rfl rfl rfl
  case h_12 hpc =>
    cases h
    refine .other rfl (.inl rfl) le_rfl ?_
    by_cases henough : cfg.successThreshold ≤ bump b.consecutiveSuccesses <;>
      simp [Caller.opening, hpc, henough]
  case h_13 hpc =>
    cases h
    exact .other rfl (.inr (by simp)) le_rfl (by simp [Caller.opening, hpc])
  case h_15 hpc =>
    cases h
    exact .clears (by rw [hpc]; rfl) rfl rfl rfl
  case h_17 hpc =>
    cases h
    refine .other rfl (.inl rfl) le_rfl ?_
    by_cases henough : cfg.failureThreshold ≤ bump b.consecutiveFailures <;>
      simp [Caller.opening, hpc, henough]
  case h_18 hpc =>
    cases h
    exact .other rfl (.inr (by simp)) le_rfl (by simp [Caller.opening, hpc])
  case h_23 hpc =>
    cases h
    exact .clears (by rw [hpc]; rfl) rfl rfl rfl
  case h_24 => cases h
  case h_6 hpc =>
    split at h <;> cases h <;> exact .other rfl (.inl rfl) le_rfl (by simp [Caller.opening, hpc])
  case h_11 hpc =>
    split at h <;> cases h <;> exact .other rfl (.inl rfl) le_rfl (by simp [Caller.opening, hpc])
  case h_16 hpc =>
    split at h <;> cases h <;> exact .other rfl (.inl rfl) le_rfl (by simp [Caller.opening, hpc])
  all_goals
    rename_i hpc
    cases h
    exact .other rfl (.inl rfl) le_rfl (by simp [Caller.opening, hpc])

/-! ## Runs -/

/-- What holds in every state of a tidy run. -/
def OneProbe (w : Procs Breaker Caller) : Prop :=
  w.shared.state = .halfOpen →
    outstanding w + opening w ≤ 1 ∧ (0 < outstanding w → w.shared.probeInFlight = true)

theorem OneProbe.step {cfg : Config} {w : Procs Breaker Caller} {l : ℕ × Move} (h : OneProbe w)
    (ok : Tidy w l) : OneProbe (step cfg w l) := by
  obtain hsame | ⟨c, b', c', hc, hact, hstep⟩ := w.step_cases (act cfg) l
  · rw [Breaker.step, hsame]
    exact h
  rw [Breaker.step, hstep]
  have hprobes : outstanding ⟨b', w.procs.set l.1 c'⟩ + c.probes = outstanding w + c'.probes :=
    total_set Caller.probes c' hc
  have hopening : opening ⟨b', w.procs.set l.1 c'⟩ + c.opening = opening w + c'.opening :=
    total_set Caller.opening c' hc
  intro hnow
  have hhalf : b'.state = .halfOpen := hnow
  -- In the half-open state before the operation, the invariant is there to use.
  have hinv (hsame : b'.state = w.shared.state) := h (hsame ▸ hhalf)
  cases act_course hact with
  | moves hpc hstate hp ho =>
      obtain ⟨hnone, hnobody⟩ := ok.moves c hc hpc hstate
      omega
  | takes hpc hfree hstate htaken hp ho =>
      obtain ⟨hle, hslot⟩ := hinv hstate
      have hnobody := ok.takes c hc hpc (hstate ▸ hhalf)
      -- A free slot means that no probe is out.
      have hnone : ¬ 0 < outstanding w := fun hsome => by
        rw [hslot hsome] at hfree
        cases hfree
      exact ⟨by omega, fun _ => htaken⟩
  | arrives hpc hstate htaken hp ho =>
      obtain ⟨hle, -⟩ := hinv hstate
      exact ⟨by omega, fun _ => htaken⟩
  | clears hpc hstate hp ho =>
      obtain ⟨hle, -⟩ := hinv hstate
      have hnone := ok.clears c hc hpc (hstate ▸ hhalf)
      exact ⟨by omega, by omega⟩
  | other hslot hstate hp ho =>
      obtain hsame | hnot := hstate
      · obtain ⟨hle, hprobe⟩ := hinv hsame
        exact ⟨by omega, fun hsome => hslot.trans (hprobe (by omega))⟩
      · exact absurd hhalf hnot

theorem OneProbe.new (n : ℕ) : OneProbe (Breaker.new n) := fun h => (by cases h)

/-- **One probe at a time in recovery.** In every tidy run of any number of callers, whenever the breaker
is half-open at most one request is out that was admitted in the open or half-open state. -/
theorem one_probe_at_a_time (cfg : Config) (n : ℕ) {ls : List (ℕ × Move)}
    (hrun : Along (step cfg) Tidy (new n) ls)
    (hhalf : (run (step cfg) (new n) ls).shared.state = .halfOpen) :
    outstanding (run (step cfg) (new n) ls) ≤ 1 := by
  have hinv : OneProbe (run (step cfg) (new n) ls) :=
    hrun.invariant (fun w l hw ok => hw.step ok) (OneProbe.new n)
  have hbound := (hinv hhalf).1
  omega

/-- Three failures trip a breaker with the default configuration. -/
def threeFailures : List (ℕ × Move) :=
  alone (.recordFailure none) 0 ++ alone (.recordFailure none) 0 ++ alone (.recordFailure none) 0

theorem one_probe_at_a_time_recovering :
    outstanding (run (step {}) (new 1) (threeFailures ++ alone .allows 10000000)) ≤ 1 := by
  exact one_probe_at_a_time {} 1 (by decide) (by decide)

/-- One caller moves the breaker to half-open, another one takes the slot, and the first one takes it
again. -/
theorem not_one_probe_at_a_time :
    ¬ ∀ (cfg : Config) (n : ℕ) (ls : List (ℕ × Move)),
      (run (step cfg) (new n) ls).shared.state = .halfOpen →
        outstanding (run (step cfg) (new n) ls) ≤ 1 := by
  intro h
  have hrun := h {} 2 (threeFailures ++ [(0, .allows), (0, .go 10000000), (0, .go 10000000),
    (1, .allows), (1, .go 10000000), (0, .go 10000000), (0, .go 10000000)])
  revert hrun
  decide

end Havuz.Breaker
