import Havuz.Pool.Model

/-!
# `max_size` bounds the pool

Idle connections hold no permit, and the counters are kept in line by hand. What a task contributes to
each quantity is a function of where it is; a move changes the shared state and the contribution of one
task, and `act_balance` says that the two changes cancel. The bound on connections is the one quantity
that can grow: a connection is opened by a task that found the queue empty, when every other connection
is in the hands of a task with a permit of its own.
-/

namespace Havuz.Pool

open Lib

variable {κ : Type}

/-! ## What a task contributes -/

/-- Connections in the hands of a call in progress, the one being opened included. -/
def Pc.conns : Pc κ → ℕ
  | .popped _ => 1
  | .fetched _ => 1
  | .connecting => 1
  | .opened _ => 1
  | .uncounted _ => 1
  | .shelving _ => 1
  | .counted _ => 1
  | _ => 0

/-- Permits held by a call in progress. -/
def Pc.permits : Pc κ → ℕ
  | .granted => 1
  | .searching => 1
  | .popped _ => 1
  | .fetched _ => 1
  | .connecting => 1
  | .opened _ => 1
  | .failed => 1
  | .uncounted _ => 1
  | .shelving _ => 1
  | .counted _ => 1
  | .releasing => 1
  | _ => 0

/-- What a call in progress has added to the idle counter and not to the queue, or taken off the queue
and not off the counter. -/
def Pc.idleDebt : Pc κ → ℕ
  | .popped _ => 1
  | .counted _ => 1
  | .swept n => n
  | .reaped n => n
  | _ => 0

def Pc.waiting : Pc κ → ℕ
  | .queued => 1
  | .granted => 1
  | .refused => 1
  | _ => 0

/-- Between two calls a task contributes its checkouts only. -/
@[simp] theorem Pc.conns_ready : (Pc.ready : Pc κ).conns = 0 := rfl

@[simp] theorem Pc.permits_ready : (Pc.ready : Pc κ).permits = 0 := rfl

@[simp] theorem Pc.idleDebt_ready : (Pc.ready : Pc κ).idleDebt = 0 := rfl

@[simp] theorem Pc.waiting_ready : (Pc.ready : Pc κ).waiting = 0 := rfl

namespace Task

/-- Live checkouts. -/
def live (t : Task κ) : ℕ := t.mine.length + t.held.length

/-- Connections checked out, on their way in or out, or being opened. -/
def conns (t : Task κ) : ℕ := t.live + t.pc.conns

/-- Permits held: one for each live checkout, and the one of the call in progress. -/
def permits (t : Task κ) : ℕ := t.live + t.pc.permits

def idleDebt (t : Task κ) : ℕ := t.pc.idleDebt

def waiting (t : Task κ) : ℕ := t.pc.waiting

/-- Whoever has a connection in hand has a permit for it. -/
theorem conns_le_permits (t : Task κ) : t.conns ≤ t.permits := by
  unfold conns permits
  cases t.pc <;> simp [Pc.conns, Pc.permits]

@[simp] theorem live_receive (co : Checkout κ) (t : Task κ) : (t.receive co).live = t.live + 1 := by
  unfold receive live
  split
  · simp only [List.length_append, List.length_singleton]
    omega
  · simp only [List.length_append, List.length_singleton]
    omega

@[simp] theorem pc_receive (co : Checkout κ) (t : Task κ) : (t.receive co).pc = .ready := by
  unfold receive
  split <;> rfl

@[simp] theorem live_miss (t : Task κ) : t.miss.live = t.live := rfl

@[simp] theorem pc_miss (t : Task κ) : t.miss.pc = .ready := rfl

end Task

/-- Nothing is lost in `reap`. -/
theorem reapLoop_length (unfit tooIdle : κ → Bool) (budget : ℕ) (q : List κ) :
    (reapLoop unfit tooIdle budget q).1.length + (reapLoop unfit tooIdle budget q).2 = q.length := by
  induction q generalizing budget with
  | nil => rfl
  | cons c rest ih =>
      unfold reapLoop
      split
      · have hrest := ih budget
        simp only [List.length_cons]
        omega
      · split
        · have hrest := ih (budget - 1)
          simp only [List.length_cons]
          omega
        · have hrest := ih budget
          simp only [List.length_cons]
          omega

/-! ## One move -/

/-- What a move leaves in balance. -/
structure Balance (s : Inner κ) (t : Task κ) (s' : Inner κ) (t' : Task κ) : Prop where
  maxSize : s'.maxSize = s.maxSize
  permits : s'.permits + t'.permits = s.permits + t.permits
  active : s'.active + t.live = s.active + t'.live
  idle : s'.idleCount + (s.idle.length + t.idleDebt : ℕ) = s.idleCount + (s'.idle.length + t'.idleDebt : ℕ)
  waiting : s'.waiting + t.waiting = s.waiting + t'.waiting
  conns : s'.idle.length + t'.conns ≤ s.idle.length + t.conns ∨ s'.idle = []

/-- A move within a call: the checkouts of the task stay as they are. -/
theorem Balance.of_pc {s s' : Inner κ} {t : Task κ} {p : Pc κ} (hmax : s'.maxSize = s.maxSize)
    (hpermits : s'.permits + p.permits = s.permits + t.pc.permits) (hactive : s'.active = s.active)
    (hidle : s'.idleCount + (s.idle.length + t.pc.idleDebt : ℕ) =
      s.idleCount + (s'.idle.length + p.idleDebt : ℕ))
    (hwaiting : s'.waiting + t.pc.waiting = s.waiting + p.waiting)
    (hconns : s'.idle.length + p.conns ≤ s.idle.length + t.pc.conns ∨ s'.idle = []) :
    Balance s t s' { t with pc := p } := by
  have hlive : ({ t with pc := p } : Task κ).live = t.live := rfl
  refine ⟨hmax, ?_, by rw [hlive, hactive], hidle, hwaiting, ?_⟩
  · simp only [Task.permits, hlive]
    omega
  · refine hconns.imp (fun hle => ?_) id
    simp only [Task.conns, hlive]
    omega

/-- The end of a call that got no connection. -/
theorem Balance.of_miss {s s' : Inner κ} {t : Task κ} (hmax : s'.maxSize = s.maxSize)
    (hpermits : s'.permits = s.permits + t.pc.permits) (hactive : s'.active = s.active)
    (hidle : s'.idle = s.idle ∧ s'.idleCount = s.idleCount ∧ t.pc.idleDebt = 0)
    (hwaiting : s'.waiting + t.pc.waiting = s.waiting) : Balance s t s' t.miss := by
  refine ⟨hmax, ?_, by rw [Task.live_miss, hactive], ?_, ?_, .inl ?_⟩
  · simp only [Task.permits, Task.live_miss, Task.pc_miss, Pc.permits_ready]
    omega
  · simp only [Task.idleDebt, Task.pc_miss, Pc.idleDebt_ready, hidle]
  · simp only [Task.waiting, Task.pc_miss, Pc.waiting_ready]
    omega
  · simp only [Task.conns, Task.live_miss, Task.pc_miss, Pc.conns_ready, hidle]
    omega

/-- The end of a call that got one: it had the connection and the permit already. -/
theorem Balance.of_receive {s s' : Inner κ} {t : Task κ} {co : Checkout κ}
    (hs' : s' = { s with active := s.active + 1 }) (hpermits : t.pc.permits = 1)
    (hidle : t.pc.idleDebt = 0) (hwaiting : t.pc.waiting = 0) (hconns : t.pc.conns = 1) :
    Balance s t s' (t.receive co) := by
  subst hs'
  refine ⟨rfl, ?_, ?_, ?_, ?_, .inl ?_⟩
  · simp only [Task.permits, Task.live_receive, Task.pc_receive, Pc.permits_ready, hpermits]
  · rw [Task.live_receive]
    push_cast
    omega
  · simp only [Task.idleDebt, Task.pc_receive, Pc.idleDebt_ready, hidle]
  · simp only [Task.waiting, Task.pc_receive, Pc.waiting_ready, hwaiting]
  · simp only [Task.conns, Task.live_receive, Task.pc_receive, Pc.conns_ready, hconns]
    omega

theorem startAcquire_balance {s s' : Inner κ} {t t' : Task κ} (hpc : t.pc = .ready)
    (h : startAcquire s t = (s', t')) : Balance s t s' t' := by
  unfold startAcquire at h
  split at h
  · cases h
    exact .of_pc rfl (by rw [hpc]; rfl) rfl (by rw [hpc]; rfl) (by rw [hpc]; rfl)
      (.inl (by rw [hpc]; rfl))
  · cases h
    exact .of_miss rfl (by rw [hpc]; rfl) rfl ⟨rfl, rfl, by rw [hpc]; rfl⟩ (by rw [hpc]; simp)

/-- A checkout is taken out of the task's hands to be dropped. -/
theorem drop_balance {s : Inner κ} {t t' : Task κ} {co : Checkout κ} (hpc : t.pc = .ready)
    (hpc' : t'.pc = .uncounted co) (hlive : t'.live + 1 = t.live) :
    Balance s t { s with active := s.active - 1 } t' := by
  refine ⟨rfl, ?_, ?_, ?_, ?_, .inl ?_⟩
  · simp only [Task.permits, hpc, hpc', Pc.permits]
    omega
  · simp only
    omega
  · simp only [Task.idleDebt, hpc, hpc', Pc.idleDebt]
  · simp only [Task.waiting, hpc, hpc', Pc.waiting]
  · simp only [Task.conns, hpc, hpc', Pc.conns]
    omega

theorem begin_balance {m : Move κ} {s s' : Inner κ} {t t' : Task κ} (hpc : t.pc = .ready)
    (h : begin m s t = some (s', t')) : Balance s t s' t' := by
  unfold begin at h
  split at h
  case h_1 => exact startAcquire_balance hpc (Option.some.inj h)
  case h_2 =>
    split at h
    · cases h
    · cases h
      exact ⟨rfl, rfl, rfl, rfl, rfl, .inl (le_refl _)⟩
  case h_3 i =>
    split at h
    case h_1 => cases h
    case h_2 co hco =>
      cases h
      refine drop_balance hpc rfl ?_
      have hi : i < t.mine.length := (List.getElem?_eq_some_iff.mp hco).1
      simp only [Task.live, List.length_eraseIdx_of_lt hi]
      omega
  case h_4 i =>
    split at h
    case h_1 => cases h
    case h_2 co hco =>
      cases h
      have hlive : ({ t with mine := t.mine.set i { co with discard := true } } : Task κ).live =
          t.live := by
        simp only [Task.live, List.length_set]
      refine ⟨rfl, ?_, by rw [hlive], rfl, rfl, .inl ?_⟩
      · simp only [Task.permits, hlive]
      · simp only [Task.conns, hlive]
        omega
  case h_5 unfit tooIdle =>
    cases h
    have hlength := reapLoop_length unfit tooIdle (s.idle.length - s.minIdle) s.idle
    refine .of_pc rfl (by rw [hpc]; rfl) rfl ?_ (by rw [hpc]; rfl) (.inl ?_)
    · rw [hpc]
      simp only [Pc.idleDebt, hlength, Nat.add_zero]
    · rw [hpc]
      simp only [Pc.conns]
      omega
  case h_6 =>
    cases h
    exact .of_pc rfl (by rw [hpc]; rfl) rfl (by rw [hpc]; rfl) (by rw [hpc]; rfl) (.inl (by rw [hpc]; rfl))
  case h_7 =>
    cases h
    exact .of_pc rfl (by rw [hpc]; rfl) rfl (by rw [hpc]; rfl) (by rw [hpc]; rfl) (.inl (by rw [hpc]; rfl))
  case h_8 =>
    cases h
    exact ⟨rfl, rfl, rfl, rfl, rfl, .inl (le_refl _)⟩
  case h_9 =>
    cases h
    exact ⟨rfl, rfl, rfl, rfl, rfl, .inl (le_refl _)⟩
  case h_10 => cases h

theorem warm_balance {k : ℕ} {s s' : Inner κ} {t t' : Task κ} (hpc : t.pc = .ready)
    (h : warm k s t = some (s', t')) : Balance s t s' t' := by
  unfold warm at h
  split at h
  case h_1 => exact startAcquire_balance hpc (Option.some.inj h)
  case h_2 =>
    cases h
    exact ⟨rfl, rfl, rfl, rfl, rfl, .inl (le_refl _)⟩
  case h_3 co rest hheld =>
    cases h
    refine drop_balance hpc rfl ?_
    simp only [Task.live, hheld, List.length_cons]
    omega

/-- Every move is in balance. -/
theorem act_balance {m : Move κ} {s s' : Inner κ} {t t' : Task κ} (h : act m s t = some (s', t')) :
    Balance s t s' t' := by
  unfold act at h
  split at h
  case h_1 hpc =>
    split at h
    case h_1 => exact begin_balance hpc h
    case h_2 =>
      split at h
      case h_1 => exact warm_balance hpc h
      case h_2 => cases h
  case h_2 hpc =>
    cases h
    refine .of_pc rfl ?_ rfl ?_ ?_ (.inl ?_) <;> simp [hpc, Pc.permits, Pc.idleDebt, Pc.waiting, Pc.conns]
  case h_3 hpc =>
    split at h
    case isTrue =>
      cases h
      refine .of_pc rfl ?_ rfl ?_ ?_ (.inl ?_) <;> simp [hpc, Pc.permits, Pc.idleDebt, Pc.waiting, Pc.conns]
    case isFalse =>
      split at h
      case isFalse => cases h
      case isTrue hsome =>
        cases h
        refine .of_pc rfl ?_ rfl ?_ ?_ (.inl ?_) <;> simp [hpc, Pc.permits, Pc.idleDebt, Pc.waiting, Pc.conns]
        omega
  case h_4 hpc =>
    cases h
    refine .of_pc rfl ?_ rfl ?_ ?_ (.inl ?_) <;> simp [hpc, Pc.permits, Pc.idleDebt, Pc.waiting, Pc.conns]
  case h_5 hpc =>
    cases h
    refine .of_pc rfl ?_ rfl ?_ ?_ (.inl ?_) <;> simp [hpc, Pc.permits, Pc.idleDebt, Pc.waiting, Pc.conns]
  case h_6 hpc =>
    cases h
    refine .of_pc rfl ?_ rfl ?_ ?_ (.inl ?_) <;> simp [hpc, Pc.permits, Pc.idleDebt, Pc.waiting, Pc.conns]
  case h_7 hpc =>
    cases h
    refine .of_pc rfl ?_ rfl ?_ ?_ (.inl ?_) <;> simp [hpc, Pc.permits, Pc.idleDebt, Pc.waiting, Pc.conns]
  case h_8 hpc =>
    cases h
    refine .of_miss rfl ?_ rfl ⟨rfl, rfl, ?_⟩ ?_ <;> simp [hpc, Pc.permits, Pc.idleDebt, Pc.waiting]
  case h_9 hpc =>
    split at h
    case h_1 hempty =>
      cases h
      refine .of_pc rfl ?_ rfl ?_ ?_ (.inr hempty) <;> simp [hpc, Pc.permits, Pc.idleDebt, Pc.waiting]
    case h_2 c rest hidle =>
      cases h
      refine .of_pc rfl ?_ rfl ?_ ?_ (.inl ?_) <;>
        simp [hpc, hidle, Pc.permits, Pc.idleDebt, Pc.waiting, Pc.conns]
  case h_10 hpc =>
    cases h
    refine .of_pc rfl ?_ rfl ?_ ?_ (.inl ?_) <;> simp [hpc, Pc.permits, Pc.idleDebt, Pc.waiting, Pc.conns]
  case h_11 hpc =>
    split at h
    case isTrue =>
      cases h
      refine .of_pc rfl ?_ rfl ?_ ?_ (.inl ?_) <;> simp [hpc, Pc.permits, Pc.idleDebt, Pc.waiting, Pc.conns]
    case isFalse =>
      cases h
      refine .of_receive rfl ?_ ?_ ?_ ?_ <;> rw [hpc] <;> rfl
  case h_12 hpc =>
    cases h
    refine .of_pc rfl ?_ rfl ?_ ?_ (.inl ?_) <;> simp [hpc, Pc.permits, Pc.idleDebt, Pc.waiting, Pc.conns]
  case h_13 hpc =>
    cases h
    refine .of_pc rfl ?_ rfl ?_ ?_ (.inl ?_) <;> simp [hpc, Pc.permits, Pc.idleDebt, Pc.waiting, Pc.conns]
  case h_14 hpc =>
    cases h
    refine .of_pc rfl ?_ rfl ?_ ?_ (.inl ?_) <;> simp [hpc, Pc.permits, Pc.idleDebt, Pc.waiting, Pc.conns]
  case h_15 hpc =>
    cases h
    refine .of_receive rfl ?_ ?_ ?_ ?_ <;> rw [hpc] <;> rfl
  case h_16 hpc =>
    cases h
    refine .of_miss rfl ?_ rfl ⟨rfl, rfl, ?_⟩ ?_ <;> simp [hpc, Pc.permits, Pc.idleDebt, Pc.waiting]
  case h_17 hpc =>
    split at h
    case isTrue =>
      cases h
      refine .of_pc rfl ?_ rfl ?_ ?_ (.inl ?_) <;> simp [hpc, Pc.permits, Pc.idleDebt, Pc.waiting, Pc.conns]
    case isFalse =>
      cases h
      refine .of_pc rfl ?_ rfl ?_ ?_ (.inl ?_) <;> simp [hpc, Pc.permits, Pc.idleDebt, Pc.waiting, Pc.conns]
  case h_18 hpc =>
    cases h
    refine .of_pc rfl ?_ rfl ?_ ?_ (.inl ?_) <;> simp [hpc, Pc.permits, Pc.idleDebt, Pc.waiting, Pc.conns]
    omega
  case h_19 hpc =>
    cases h
    refine .of_pc rfl ?_ rfl ?_ ?_ (.inl ?_) <;> simp [hpc, Pc.permits, Pc.idleDebt, Pc.waiting, Pc.conns]
  case h_20 hpc =>
    cases h
    refine .of_pc rfl ?_ rfl ?_ ?_ (.inl ?_) <;> simp [hpc, Pc.permits, Pc.idleDebt, Pc.waiting, Pc.conns]
  case h_21 hpc =>
    cases h
    refine .of_pc rfl ?_ rfl ?_ ?_ (.inl ?_) <;> simp [hpc, Pc.permits, Pc.idleDebt, Pc.waiting, Pc.conns]
  case h_22 hpc =>
    cases h
    refine .of_pc rfl ?_ rfl ?_ ?_ (.inl ?_) <;> simp [hpc, Pc.permits, Pc.idleDebt, Pc.waiting, Pc.conns]
  case h_23 hpc =>
    cases h
    refine .of_pc rfl ?_ rfl ?_ ?_ (.inl ?_) <;> simp [hpc, Pc.permits, Pc.idleDebt, Pc.waiting, Pc.conns]
  case h_24 hpc =>
    cases h
    refine .of_pc rfl ?_ rfl ?_ ?_ (.inl ?_) <;> simp [hpc, Pc.permits, Pc.idleDebt, Pc.waiting, Pc.conns]
  case h_25 => cases h

/-! ## Runs -/

/-- What holds of the pool in every state. -/
structure Bounded (w : Procs (Inner κ) (Task κ)) : Prop where
  permits : w.shared.permits + total Task.permits w.procs = w.shared.maxSize
  conns : w.shared.idle.length + total Task.conns w.procs ≤ w.shared.maxSize
  active : w.shared.active = total Task.live w.procs
  idle : w.shared.idleCount = (w.shared.idle.length + total Task.idleDebt w.procs : ℕ)
  waiting : w.shared.waiting = total Task.waiting w.procs

theorem Bounded.new (κ : Type) (maxSize minIdle n : ℕ) : Bounded (Pool.new κ maxSize minIdle n) := by
  constructor <;> simp [Pool.new, total_replicate, Task.permits, Task.conns, Task.live, Task.idleDebt,
    Task.waiting]

theorem Bounded.step {w : Procs (Inner κ) (Task κ)} (h : Bounded w) (l : ℕ × Move κ) :
    Bounded (w.step act l) := by
  obtain hsame | ⟨t, s', t', ht, hact, hstep⟩ := w.step_cases act l
  · rw [hsame]
    exact h
  · have hb := act_balance hact
    have hlive := total_set Task.live t' ht
    have hpermits := total_set Task.permits t' ht
    have hconns := total_set Task.conns t' ht
    have hidle := total_set Task.idleDebt t' ht
    have hwaiting := total_set Task.waiting t' ht
    obtain ⟨h₁, h₂, h₃, h₄, h₅⟩ := h
    obtain ⟨b₁, b₂, b₃, b₄, b₅, b₆⟩ := hb
    rw [hstep]
    have hfull : s'.permits + total Task.permits (w.procs.set l.1 t') = s'.maxSize := by
      rw [b₁]
      omega
    refine ⟨hfull, ?_, ?_, ?_, ?_⟩
    · obtain hle | hempty := b₆
      · show s'.idle.length + total Task.conns (w.procs.set l.1 t') ≤ s'.maxSize
        rw [b₁]
        omega
      · -- Nothing is on the queue: every connection is in the hands of a task with a permit.
        have hle := total_le Task.conns_le_permits (w.procs.set l.1 t')
        show s'.idle.length + total Task.conns (w.procs.set l.1 t') ≤ s'.maxSize
        rw [hempty, List.length_nil, ← hfull]
        omega
    · show s'.active = total Task.live (w.procs.set l.1 t')
      omega
    · show s'.idleCount = (s'.idle.length + total Task.idleDebt (w.procs.set l.1 t') : ℕ)
      omega
    · show s'.waiting = total Task.waiting (w.procs.set l.1 t')
      omega

theorem step_maxSize (w : Procs (Inner κ) (Task κ)) (l : ℕ × Move κ) :
    (w.step act l).shared.maxSize = w.shared.maxSize := by
  obtain hsame | ⟨t, s', t', -, hact, hstep⟩ := w.step_cases act l
  · rw [hsame]
  · rw [hstep]
    exact (act_balance hact).maxSize

/-- No task is inside a call. -/
def Quiescent (w : Procs (Inner κ) (Task κ)) : Prop :=
  ∀ t ∈ w.procs, t.pc = .ready ∧ t.warm = none

/-- **`max_size` bounds the pool.** In every state that any number of tasks can reach by any
interleaving of their operations: connections checked out, being opened and idle are at most
`max_size`; permits are conserved; no counter underflows; and between calls the counters say what there
is. -/
theorem max_size_bounds (κ : Type) (maxSize minIdle n : ℕ) (ls : List (ℕ × Move κ)) :
    let w := run step (new κ maxSize minIdle n) ls
    w.shared.idle.length + total Task.conns w.procs ≤ maxSize ∧
      w.shared.permits + total Task.permits w.procs = maxSize ∧
      0 ≤ w.shared.active ∧ 0 ≤ w.shared.idleCount ∧ 0 ≤ w.shared.waiting ∧
      (Quiescent w → w.shared.active = total Task.live w.procs ∧
        w.shared.idleCount = w.shared.idle.length) := by
  intro w
  have hinv : Bounded w ∧ w.shared.maxSize = maxSize := by
    refine run_invariant (I := fun w => Bounded w ∧ w.shared.maxSize = maxSize) (fun w l hw => ?_)
      ⟨Bounded.new κ maxSize minIdle n, rfl⟩ ls
    exact ⟨hw.1.step l, (step_maxSize w l).trans hw.2⟩
  obtain ⟨hw, hmax⟩ := hinv
  have hidle := hw.idle
  refine ⟨hmax ▸ hw.conns, hmax ▸ hw.permits, ?_, ?_, ?_, fun hquiet => ⟨hw.active, ?_⟩⟩
  · rw [hw.active]
    omega
  · omega
  · rw [hw.waiting]
    omega
  · have hnone : total Task.idleDebt w.procs = total (fun _ => 0) w.procs := by
      refine total_congr fun t ht => ?_
      rw [Task.idleDebt, (hquiet t ht).1, Pc.idleDebt_ready]
    have hzero : total (fun _ : Task κ => 0) w.procs = 0 := by simp [total]
    omega

end Havuz.Pool
