import Havuz.Pool.Model

/-!
# Draining

`drain` stores the status and empties the queue; a checkout that is dropped looks at the status and then
goes on the queue, and an `acquire` looks at the status and then waits. Each of the three is two steps, so
a checkout or an `acquire` that looked before the status was stored acts on what it saw after `drain` has
returned. `Orderly` says that none does.
-/

namespace Havuz.Pool

open Lib

variable {κ : Type}

/-! ## Between the look and the act -/

/-- An `acquire` has seen an active pool and has no permit yet. -/
def Pc.entering : Pc κ → Bool
  | .checked => true
  | .queued => true
  | _ => false

/-- A dropped checkout has seen a pool that is not draining and is not on the queue yet. -/
def Pc.shelvingNow : Pc κ → Bool
  | .shelving _ => true
  | .counted _ => true
  | _ => false

/-- A `drain` or `close` is in progress. -/
def Pc.drainingNow : Pc κ → Bool
  | .closing => true
  | .sweeping => true
  | .swept _ => true
  | _ => false

/-- It has emptied the queue. -/
def Pc.sweptNow : Pc κ → Bool
  | .swept _ => true
  | _ => false

def Move.stores : Move κ → Bool
  | .drain => true
  | .close => true
  | _ => false

def Move.isPause : Move κ → Bool
  | .pause => true
  | _ => false

def Move.isResume : Move κ → Bool
  | .resume => true
  | _ => false

/-- Between two calls. -/
def Task.Idle (t : Task κ) : Prop := t.pc = .ready ∧ t.warm = none

instance [DecidableEq κ] (t : Task κ) : Decidable t.Idle := inferInstanceAs (Decidable (_ ∧ _))

/-- The condition under which draining empties the queue for good: when a `drain` or `close` stores the
status, no dropped checkout is between its look at the status and the queue; when a `drain` returns, no
`acquire` is between its look and its permit, unless the permits are closed; the status is not set back
while a `drain` or `close` is in progress, nor to paused afterwards. -/
structure Orderly (w : Procs (Inner κ) (Task κ)) (l : ℕ × Move κ) : Prop where
  stores : ∀ t, w.procs[l.1]? = some t → t.Idle → l.2.stores = true →
    ∀ u ∈ w.procs, u.pc.shelvingNow = false
  returns : ∀ t, w.procs[l.1]? = some t → t.pc.sweptNow = true →
    w.shared.permitsClosed = true ∨ ∀ u ∈ w.procs, u.pc.entering = false
  reopens : ∀ t, w.procs[l.1]? = some t → t.Idle → (l.2.isPause || l.2.isResume) = true →
    ∀ u ∈ w.procs, u.pc.drainingNow = false
  pauses : ∀ t, w.procs[l.1]? = some t → t.Idle → l.2.isPause = true → w.shared.drained = false

/-! ## One move -/

/-- What a move has to do with draining. -/
structure Course (m : Move κ) (s : Inner κ) (t : Task κ) (s' : Inner κ) (t' : Task κ) : Prop where
  status : s'.status = s.status ∨ (t.Idle ∧
    ((m.stores = true ∧ s'.status.isDraining = true) ∨ m.isPause = true ∨
      (m.isResume = true ∧ s'.drained = false)))
  idle : s.idle = [] → t.pc.shelvingNow = false → s'.idle = []
  permitsClosed : s.permitsClosed = true → s'.permitsClosed = true
  drained : s'.drained = true → s.drained = true ∨ t.pc.sweptNow = true
  late : s'.late = s.late ∨ (t.pc.entering = true ∧ s.permitsClosed = false ∧ s.drained = true)
  entering : t'.pc.entering = true → t.pc.entering = true ∨ s.status = .active
  shelving : t'.pc.shelvingNow = true →
    t.pc.shelvingNow = true ∨ (s.status.isDraining = false ∧ ¬ t.Idle)
  draining : t'.pc.drainingNow = true → t.pc.drainingNow = true ∨ (t.Idle ∧ m.stores = true)
  swept : t'.pc.sweptNow = true → t.pc.sweptNow = true ∨ s'.idle = []

/-- A move within a call that leaves all of it alone. -/
theorem Course.plain {m : Move κ} {s s' : Inner κ} {t t' : Task κ} (hstatus : s'.status = s.status)
    (hidle : s.idle = [] → s'.idle = []) (hpermits : s'.permitsClosed = s.permitsClosed)
    (hdrained : s'.drained = s.drained) (hlate : s'.late = s.late)
    (hpc : t'.pc.entering = false ∧ t'.pc.shelvingNow = false ∧ t'.pc.drainingNow = false ∧
      t'.pc.sweptNow = false) : Course m s t s' t' := by
  refine ⟨.inl hstatus, fun h _ => hidle h, fun h => hpermits ▸ h, fun h => .inl (hdrained ▸ h),
    .inl hlate, fun h => ?_, fun h => ?_, fun h => ?_, fun h => ?_⟩
  · exact absurd h (by simp [hpc.1])
  · exact absurd h (by simp [hpc.2.1])
  · exact absurd h (by simp [hpc.2.2.1])
  · exact absurd h (by simp [hpc.2.2.2])

theorem startAcquire_course {m : Move κ} {s s' : Inner κ} {t t' : Task κ}
    (h : startAcquire s t = (s', t')) : Course m s t s' t' := by
  unfold startAcquire at h
  split at h
  case isTrue hactive =>
    cases h
    exact ⟨.inl rfl, fun h _ => h, id, .inl, .inl rfl, fun _ => .inr hactive, fun h => (by cases h),
      fun h => (by cases h), fun h => (by cases h)⟩
  case isFalse =>
    cases h
    exact .plain rfl id rfl rfl rfl ⟨rfl, rfl, rfl, rfl⟩

theorem begin_course {m : Move κ} {s s' : Inner κ} {t t' : Task κ} (hidle : t.Idle)
    (h : begin m s t = some (s', t')) : Course m s t s' t' := by
  have hpc : t.pc.entering = false ∧ t.pc.shelvingNow = false ∧ t.pc.drainingNow = false ∧
      t.pc.sweptNow = false := by
    rw [hidle.1]
    exact ⟨rfl, rfl, rfl, rfl⟩
  unfold begin at h
  split at h
  case h_1 => exact startAcquire_course (Option.some.inj h)
  case h_2 =>
    split at h
    · cases h
    · cases h
      exact .plain rfl id rfl rfl rfl hpc
  case h_3 i =>
    split at h
    · cases h
    · cases h
      exact .plain rfl id rfl rfl rfl ⟨rfl, rfl, rfl, rfl⟩
  case h_4 i =>
    split at h
    · cases h
    · cases h
      exact .plain rfl id rfl rfl rfl hpc
  case h_5 unfit tooIdle =>
    cases h
    refine .plain rfl (fun hempty => ?_) rfl rfl rfl ⟨rfl, rfl, rfl, rfl⟩
    simp only [hempty, reapLoop]
  case h_6 =>
    cases h
    exact ⟨.inr ⟨hidle, .inl ⟨rfl, rfl⟩⟩, fun h _ => h, id, .inl, .inl rfl, fun h => (by cases h),
      fun h => (by cases h), fun _ => .inr ⟨hidle, rfl⟩, fun h => (by cases h)⟩
  case h_7 =>
    cases h
    exact ⟨.inr ⟨hidle, .inl ⟨rfl, rfl⟩⟩, fun h _ => h, id, .inl, .inl rfl, fun h => (by cases h),
      fun h => (by cases h), fun _ => .inr ⟨hidle, rfl⟩, fun h => (by cases h)⟩
  case h_8 =>
    cases h
    exact ⟨.inr ⟨hidle, .inr (.inl rfl)⟩, fun h _ => h, id, .inl, .inl rfl, .inl, .inl, .inl, .inl⟩
  case h_9 =>
    cases h
    exact ⟨.inr ⟨hidle, .inr (.inr ⟨rfl, rfl⟩)⟩, fun h _ => h, id, fun h => (by cases h), .inl rfl, .inl,
      .inl, .inl, .inl⟩
  case h_10 => cases h

theorem act_course {m : Move κ} {s s' : Inner κ} {t t' : Task κ} (h : act m s t = some (s', t')) :
    Course m s t s' t' := by
  unfold act at h
  split at h
  case h_1 hpc =>
    split at h
    case h_1 hwarm => exact begin_course ⟨hpc, hwarm⟩ h
    case h_2 =>
      split at h
      case h_2 => cases h
      case h_1 =>
        unfold warm at h
        split at h
        case h_1 => exact startAcquire_course (Option.some.inj h)
        case h_2 =>
          cases h
          refine .plain rfl id rfl rfl rfl ?_
          rw [hpc]
          exact ⟨rfl, rfl, rfl, rfl⟩
        case h_3 =>
          cases h
          exact .plain rfl id rfl rfl rfl ⟨rfl, rfl, rfl, rfl⟩
  case h_2 hpc =>
    cases h
    exact ⟨.inl rfl, fun h _ => h, id, .inl, .inl rfl, fun _ => .inl (by rw [hpc]; rfl),
      fun h => (by cases h), fun h => (by cases h), fun h => (by cases h)⟩
  case h_3 hpc =>
    split at h
    case isTrue =>
      cases h
      exact .plain rfl id rfl rfl rfl ⟨rfl, rfl, rfl, rfl⟩
    case isFalse hopen =>
      split at h
      case isFalse => cases h
      case isTrue =>
        cases h
        refine ⟨.inl rfl, fun h _ => h, id, .inl, ?_, fun h => (by cases h), fun h => (by cases h),
          fun h => (by cases h), fun h => (by cases h)⟩
        cases hdrained : s.drained with
        | false => exact .inl (by simp)
        | true => exact .inr ⟨by rw [hpc]; rfl, by simpa using hopen, rfl⟩
  case h_9 hpc =>
    split at h
    case h_1 =>
      cases h
      exact .plain rfl id rfl rfl rfl ⟨rfl, rfl, rfl, rfl⟩
    case h_2 c rest hidle =>
      cases h
      refine .plain rfl (fun hempty => ?_) rfl rfl rfl ⟨rfl, rfl, rfl, rfl⟩
      rw [hidle] at hempty
      cases hempty
  case h_11 hpc =>
    split at h
    case isTrue =>
      cases h
      exact .plain rfl id rfl rfl rfl ⟨rfl, rfl, rfl, rfl⟩
    case isFalse =>
      cases h
      refine .plain rfl id rfl rfl rfl ?_
      simp only [Task.receive]
      split <;> exact ⟨rfl, rfl, rfl, rfl⟩
  case h_15 hpc =>
    cases h
    refine .plain rfl id rfl rfl rfl ?_
    simp only [Task.receive]
    split <;> exact ⟨rfl, rfl, rfl, rfl⟩
  case h_17 hpc =>
    split at h
    case isTrue =>
      cases h
      exact .plain rfl id rfl rfl rfl ⟨rfl, rfl, rfl, rfl⟩
    case isFalse hfit =>
      cases h
      simp only [Bool.or_eq_true, not_or, Bool.not_eq_true] at hfit
      refine ⟨.inl rfl, fun h _ => h, id, .inl, .inl rfl, fun h => (by cases h),
        fun _ => .inr ⟨hfit.2, fun hidle => ?_⟩, fun h => (by cases h), fun h => (by cases h)⟩
      have hready := hidle.1
      rw [hpc] at hready
      cases hready
  case h_18 hpc =>
    cases h
    exact ⟨.inl rfl, fun h _ => h, id, .inl, .inl rfl, fun h => (by cases h),
      fun _ => .inl (by rw [hpc]; rfl), fun h => (by cases h), fun h => (by cases h)⟩
  case h_19 hpc =>
    cases h
    refine ⟨.inl rfl, fun _ hno => ?_, id, .inl, .inl rfl, fun h => (by cases h), fun h => (by cases h),
      fun h => (by cases h), fun h => (by cases h)⟩
    rw [hpc] at hno
    cases hno
  case h_21 hpc =>
    cases h
    exact ⟨.inl rfl, fun h _ => h, fun _ => rfl, .inl, .inl rfl, fun h => (by cases h),
      fun h => (by cases h), fun _ => .inl (by rw [hpc]; rfl), fun h => (by cases h)⟩
  case h_22 hpc =>
    cases h
    exact ⟨.inl rfl, fun _ _ => rfl, id, .inl, .inl rfl, fun h => (by cases h),
      fun h => (by cases h), fun _ => .inl (by rw [hpc]; rfl), fun _ => .inr rfl⟩
  case h_23 hpc =>
    cases h
    exact ⟨.inl rfl, fun h _ => h, id, fun _ => .inr (by rw [hpc]; rfl), .inl rfl, fun h => (by cases h),
      fun h => (by cases h), fun h => (by cases h), fun h => (by cases h)⟩
  case h_25 => cases h
  all_goals
    cases h
    exact .plain rfl id rfl rfl rfl ⟨rfl, rfl, rfl, rfl⟩

theorem act_stores {m : Move κ} {s s' : Inner κ} {t t' : Task κ} (hidle : t.Idle)
    (hm : m.stores = true) (h : act m s t = some (s', t')) : s'.status.isDraining = true := by
  simp only [act, hidle.1, hidle.2] at h
  cases m with
  | drain =>
      cases h
      rfl
  | close =>
      cases h
      rfl
  | _ => cases hm

/-! ## Runs -/

/-- The pool turns returned connections away, and none is past the look at the status. -/
def Shut (w : Procs (Inner κ) (Task κ)) : Prop :=
  w.shared.status.isDraining = true ∧ ∀ u ∈ w.procs, u.pc.shelvingNow = false

/-- What holds in every state of an orderly run. -/
structure Drainage (w : Procs (Inner κ) (Task κ)) : Prop where
  shut : (∃ u ∈ w.procs, u.pc.drainingNow = true) ∨ w.shared.drained = true → Shut w
  empty : (∃ u ∈ w.procs, u.pc.sweptNow = true) ∨ w.shared.drained = true → w.shared.idle = []
  entering : w.shared.drained = true →
    w.shared.permitsClosed = true ∨ ∀ u ∈ w.procs, u.pc.entering = false
  late : w.shared.late = 0

theorem Pc.draining_of_swept {p : Pc κ} (h : p.sweptNow = true) : p.drainingNow = true := by
  cases p with
  | swept n => rfl
  | _ => cases h

theorem Status.not_draining_active : Status.active.isDraining = false := rfl

section Step

variable {w : Procs (Inner κ) (Task κ)} {l : ℕ × Move κ} {t t' : Task κ} {s' : Inner κ}

/-- A `drain` in progress or done after a move was so before, unless the move starts one. -/
theorem Drainage.before (ht : w.procs[l.1]? = some t) (hact : act l.2 w.shared t = some (s', t'))
    (h : (∃ u ∈ w.procs.set l.1 t', u.pc.drainingNow = true) ∨ s'.drained = true) :
    ((∃ u ∈ w.procs, u.pc.drainingNow = true) ∨ w.shared.drained = true) ∨
      (t.Idle ∧ l.2.stores = true) := by
  have hcourse := act_course hact
  have hmem : t ∈ w.procs := List.mem_of_getElem? ht
  obtain ⟨u, hu, hdraining⟩ | hdrained := h
  · obtain rfl | hu := mem_of_mem_set hu
    · exact (hcourse.draining hdraining).imp (fun h => .inl ⟨t, hmem, h⟩) id
    · exact .inl (.inl ⟨u, hu, hdraining⟩)
  · exact .inl ((hcourse.drained hdrained).elim .inr fun h => .inl ⟨t, hmem, Pc.draining_of_swept h⟩)

/-- The status is not set back. -/
theorem Drainage.shut_step (h : Drainage w) (ok : Orderly w l) (ht : w.procs[l.1]? = some t)
    (hact : act l.2 w.shared t = some (s', t'))
    (hnow : (∃ u ∈ w.procs.set l.1 t', u.pc.drainingNow = true) ∨ s'.drained = true) :
    Shut ⟨s', w.procs.set l.1 t'⟩ := by
  have hcourse := act_course hact
  obtain hbefore | ⟨hidle, hstores⟩ := Drainage.before ht hact hnow
  · obtain ⟨hstatus, hshelving⟩ := h.shut hbefore
    refine ⟨?_, fun u hu => ?_⟩
    · show s'.status.isDraining = true
      obtain hsame | ⟨hidle, ⟨-, hstored⟩ | hpause | ⟨hresume, hundone⟩⟩ := hcourse.status
      · rw [hsame]
        exact hstatus
      · exact hstored
      · -- A pause comes neither during a `drain` nor after it.
        have hnone := ok.reopens t ht hidle (by simp [hpause])
        obtain ⟨u, hu, hdraining⟩ | hdrained := hbefore
        · rw [hnone u hu] at hdraining
          cases hdraining
        · rw [ok.pauses t ht hidle hpause] at hdrained
          cases hdrained
      · -- After a resume nothing is drained, and no `drain` is in progress.
        have hnone := ok.reopens t ht hidle (by simp [hresume])
        obtain ⟨u, hu, hdraining⟩ | hdrained := hnow
        · obtain rfl | hu := mem_of_mem_set hu
          · obtain hdraining | ⟨-, hstores⟩ := hcourse.draining hdraining
            · rw [hnone t (List.mem_of_getElem? ht)] at hdraining
              cases hdraining
            · cases hm : l.2 <;> rw [hm] at hstores hresume <;> cases hstores <;> cases hresume
          · rw [hnone u hu] at hdraining
            cases hdraining
        · rw [hundone] at hdrained
          cases hdrained
    · obtain rfl | hu := mem_of_mem_set hu
      · by_contra hnow
        obtain hbefore | ⟨hnot, -⟩ := hcourse.shelving (by simpa using hnow)
        · rw [hshelving t (List.mem_of_getElem? ht)] at hbefore
          cases hbefore
        · rw [hstatus] at hnot
          cases hnot
      · exact hshelving u hu
  · refine ⟨act_stores hidle hstores hact, fun u hu => ?_⟩
    have hnone := ok.stores t ht hidle hstores
    obtain rfl | hu := mem_of_mem_set hu
    · by_contra hnow
      obtain hbefore | ⟨-, hnot⟩ := hcourse.shelving (by simpa using hnow)
      · rw [hnone t (List.mem_of_getElem? ht)] at hbefore
        cases hbefore
      · exact hnot hidle
    · exact hnone u hu

theorem Drainage.step (h : Drainage w) (ok : Orderly w l) : Drainage (w.step act l) := by
  obtain hsame | ⟨t, s', t', ht, hact, hstep⟩ := w.step_cases act l
  · rw [hsame]
    exact h
  · have hcourse := act_course hact
    have hmem : t ∈ w.procs := List.mem_of_getElem? ht
    rw [hstep]
    -- Once the pool is shut and its queue empty, nothing fills the queue.
    have hempty : Shut w → w.shared.idle = [] → s'.idle = [] := fun hshut hidle =>
      hcourse.idle hidle (hshut.2 t hmem)
    have hswept : t.pc.sweptNow = true → Shut w ∧ w.shared.idle = [] := fun hnow =>
      ⟨h.shut (.inl ⟨t, hmem, Pc.draining_of_swept hnow⟩), h.empty (.inl ⟨t, hmem, hnow⟩)⟩
    have hdrained : w.shared.drained = true → Shut w ∧ w.shared.idle = [] := fun hnow =>
      ⟨h.shut (.inr hnow), h.empty (.inr hnow)⟩
    -- And no `acquire` gets past the look at the status.
    have hentering : Shut w → (∀ u ∈ w.procs, u.pc.entering = false) →
        ∀ u ∈ w.procs.set l.1 t', u.pc.entering = false := by
      intro hshut hnone u hu
      obtain rfl | hu := mem_of_mem_set hu
      · by_contra hnow
        obtain hbefore | hactive := hcourse.entering (by simpa using hnow)
        · rw [hnone t hmem] at hbefore
          cases hbefore
        · have hstatus := hshut.1
          rw [hactive] at hstatus
          cases hstatus
      · exact hnone u hu
    refine ⟨h.shut_step ok ht hact, fun hnow => ?_, fun hnow => ?_, ?_⟩
    · obtain ⟨u, hu, hnow⟩ | hnow := hnow
      · obtain rfl | hu := mem_of_mem_set hu
        · obtain hbefore | hdone := hcourse.swept hnow
          · exact hempty (hswept hbefore).1 (hswept hbefore).2
          · exact hdone
        · exact hempty (h.shut (.inl ⟨u, hu, Pc.draining_of_swept hnow⟩)) (h.empty (.inl ⟨u, hu, hnow⟩))
      · obtain hbefore | hbefore := hcourse.drained hnow
        · exact hempty (hdrained hbefore).1 (hdrained hbefore).2
        · exact hempty (hswept hbefore).1 (hswept hbefore).2
    · obtain hbefore | hbefore := hcourse.drained hnow
      · exact (h.entering hbefore).imp hcourse.permitsClosed (hentering (hdrained hbefore).1)
      · exact (ok.returns t ht hbefore).imp hcourse.permitsClosed (hentering (hswept hbefore).1)
    · show s'.late = 0
      obtain hsame | ⟨hbefore, hopen, hnow⟩ := hcourse.late
      · rw [hsame, h.late]
      · obtain hclosed | hnone := h.entering hnow
        · rw [hclosed] at hopen
          cases hopen
        · rw [hnone t hmem] at hbefore
          cases hbefore

end Step

theorem Drainage.new (κ : Type) (maxSize minIdle n : ℕ) : Drainage (Pool.new κ maxSize minIdle n) := by
  have hready : ∀ u ∈ (Pool.new κ maxSize minIdle n).procs, u.pc = .ready := by
    intro u hu
    rw [List.eq_of_mem_replicate hu]
  refine ⟨fun h => ?_, fun _ => rfl, fun h => (by cases h), rfl⟩
  obtain ⟨u, hu, hnow⟩ | hnow := h
  · rw [hready u hu] at hnow
    cases hnow
  · cases hnow

end Havuz.Pool
