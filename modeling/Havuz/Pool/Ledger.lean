import Havuz.Pool.Retire

/-!
# The books of a pool

Reference: `Counters` of `havuz-pool/src/counters.rs`, and where `havuz-pool/src/pool.rs` counts. The totals are only
ever counted up, next to the gauges that the model of the pool has already. A total is counted with the operation it
stands next to in the source; how long a call waited, and whether it is `recycle` that discards, comes with the move.

`opened` and `retired` list, for the proofs, which connections were opened and which were sent to the closer. Every
connection that was opened is in one place (`Balanced.placed`), and between calls the totals say how many there are
(`books_balance`).
-/

namespace Havuz.Pool

open Lib

variable {κ : Type}

/-- What `Counters` only counts up. -/
structure Totals where
  createdTotal : ℕ := 0
  closedTotal : ℕ := 0
  checkoutTotal : ℕ := 0
  timeoutTotal : ℕ := 0
  connectErrorTotal : ℕ := 0
  discardedTotal : ℕ := 0
  uncleanTotal : ℕ := 0
  waitMicrosTotal : ℕ := 0
  waitSamples : ℕ := 0
  waitMicrosMax : ℕ := 0
deriving DecidableEq, Repr

/-- What comes with a move: how long the call has waited by now, and whether a checkout is discarded by `recycle`. -/
structure Note where
  micros : ℕ := 0
  unclean : Bool := false

namespace Totals

/-- `Counters::record_wait`. -/
@[simp] def recordWait (micros : ℕ) (c : Totals) : Totals :=
  { c with
    waitMicrosTotal := c.waitMicrosTotal + micros
    waitSamples := c.waitSamples + 1
    waitMicrosMax := max c.waitMicrosMax micros }

/-- `Inner::retire` of `n` connections. -/
@[simp] def retire (n : ℕ) (c : Totals) : Totals := { c with closedTotal := c.closedTotal + n }

/-- `n` connections are broken, expired or idle for too long. -/
@[simp] def discard (n : ℕ) (c : Totals) : Totals := { c with discardedTotal := c.discardedTotal + n }

/-- What a move counts. -/
def count (m : Move κ) (note : Note) (s : Inner κ) (t : Task κ) (c : Totals) : Totals :=
  match t.pc, m with
  | .ready, .discard _ => { c with uncleanTotal := c.uncleanTotal + note.unclean.toNat }
  | .queued, .timeout => { c with timeoutTotal := c.timeoutTotal + 1 }.recordWait note.micros
  | .granted, .go => c.recordWait note.micros
  | .fetched _, .judge true => (c.discard 1).retire 1
  | .fetched _, .judge false => { c with checkoutTotal := c.checkoutTotal + 1 }
  | .connecting, .connect none => { c with connectErrorTotal := c.connectErrorTotal + 1 }
  | .opened _, .go =>
      { c with createdTotal := c.createdTotal + 1, checkoutTotal := c.checkoutTotal + 1 }
  | .uncounted co, .judge unfit =>
      if co.discard || unfit then (c.discard 1).retire 1
      else if s.status.isDraining then c.retire 1
      else c
  | .swept n, .go => c.retire n
  | .reaped n, .go => (c.discard n).retire n
  | _, _ => c

end Totals

/-- The pool with its totals, and every connection it opened and retired. -/
structure Books (κ : Type) where
  pool : Procs (Inner κ) (Task κ)
  totals : Totals := {}
  opened : List κ := []
  retired : List κ := []

namespace Books

def new (κ : Type) (maxSize minIdle n : ℕ) : Books κ := { pool := Pool.new κ maxSize minIdle n }

/-- One turn of the system. -/
def step (b : Books κ) (l : ℕ × Move κ × Note) : Books κ :=
  match b.pool.procs[l.1]? with
  | none => b
  | some t =>
      match act l.2.1 b.pool.shared t with
      | none => b
      | some (s, t') =>
          { pool := ⟨s, b.pool.procs.set l.1 t'⟩
            totals := b.totals.count l.2.1 l.2.2 b.pool.shared t
            opened := b.opened ++ l.2.1.opens
            retired := b.retired ++ retires l.2.1 b.pool.shared t }

/-- All that a turn can do. -/
theorem step_cases (b : Books κ) (l : ℕ × Move κ × Note) :
    b.step l = b ∨ ∃ t s' t', b.pool.procs[l.1]? = some t ∧ act l.2.1 b.pool.shared t = some (s', t') ∧
      b.step l =
        { pool := ⟨s', b.pool.procs.set l.1 t'⟩
          totals := b.totals.count l.2.1 l.2.2 b.pool.shared t
          opened := b.opened ++ l.2.1.opens
          retired := b.retired ++ retires l.2.1 b.pool.shared t } := by
  cases ht : b.pool.procs[l.1]? with
  | none => exact .inl (by rw [step, ht])
  | some t =>
      cases hact : act l.2.1 b.pool.shared t with
      | none => exact .inl (by simp only [step, ht, hact])
      | some r => exact .inr ⟨t, r.1, r.2, rfl, hact, by simp only [step, ht, hact]⟩

/-- Forgetting the books leaves the pool. -/
theorem pool_step (b : Books κ) (l : ℕ × Move κ × Note) : (b.step l).pool = Pool.step b.pool (l.1, l.2.1) := by
  cases ht : b.pool.procs[l.1]? with
  | none => simp only [step, Pool.step, Procs.step, ht]
  | some t => cases hact : act l.2.1 b.pool.shared t <;> simp only [step, Pool.step, Procs.step, ht, hact]

end Books

/-! ## What a call in progress has still to count -/

/-- A connection that was opened and is not counted as created. -/
@[simp] def Pc.uncreated : Pc κ → ℕ
  | .opened _ => 1
  | _ => 0

/-- Connections that were sent to the closer and are not counted as closed. -/
@[simp] def Pc.unclosed : Pc κ → ℕ
  | .swept n => n
  | .reaped n => n
  | _ => 0

/-- A wait that was recorded, of a call whose end is not counted yet. -/
@[simp] def Pc.waited : Pc κ → ℕ
  | .searching => 1
  | .popped _ => 1
  | .fetched _ => 1
  | .connecting => 1
  | .opened _ => 1
  | _ => 0

namespace Task

@[simp] def uncreated (t : Task κ) : ℕ := t.pc.uncreated

@[simp] def unclosed (t : Task κ) : ℕ := t.pc.unclosed

@[simp] def waited (t : Task κ) : ℕ := t.pc.waited

end Task

theorem length_reapRetired (unfit tooIdle : κ → Bool) (budget : ℕ) (q : List κ) :
    (reapRetired unfit tooIdle budget q).length = (reapLoop unfit tooIdle budget q).2 := by
  induction q generalizing budget with
  | nil => rfl
  | cons c rest ih =>
      unfold reapRetired reapLoop
      split
      · rw [List.length_cons, ih]
      · split
        · rw [List.length_cons, ih]
        · exact ih budget

/-! ## One move -/

/-- Calls whose wait was recorded, by how they ended. -/
def Totals.ended (c : Totals) : ℕ := c.checkoutTotal + c.timeoutTotal + c.connectErrorTotal

/-- What a move leaves in balance. -/
structure Tallies (m : Move κ) (s : Inner κ) (t t' : Task κ) (c c' : Totals) : Prop where
  created : c'.createdTotal + t'.uncreated = c.createdTotal + t.uncreated + m.opens.length
  closed : c'.closedTotal + t'.unclosed = c.closedTotal + t.unclosed + (retires m s t).length
  discarded : c'.discardedTotal + c.closedTotal ≤ c.discardedTotal + c'.closedTotal
  checkout : c'.createdTotal + c.checkoutTotal ≤ c.createdTotal + c'.checkoutTotal
  waits : c'.ended + t'.waited + c.waitSamples ≤ c.ended + t.waited + c'.waitSamples

variable {m : Move κ} {s s' : Inner κ} {t t' : Task κ} {c : Totals}

/-- A move that counts nothing. -/
theorem Tallies.of_same (hcreated : t'.uncreated = t.uncreated) (hopens : m.opens = [])
    (hclosed : t'.unclosed = t.unclosed + (retires m s t).length) (hwaited : t'.waited ≤ t.waited) :
    Tallies m s t t' c c := by
  refine ⟨?_, ?_, le_refl _, le_refl _, ?_⟩
  · rw [hcreated, hopens, List.length_nil, Nat.add_zero]
  · omega
  · omega

/-- A task that comes to nothing to be counted from where nothing was to be counted. -/
theorem Tallies.of_idle (hpc : t.pc.uncreated = 0 ∧ t.pc.unclosed = 0)
    (hpc' : t'.pc.uncreated = 0 ∧ t'.pc.unclosed = 0 ∧ t'.pc.waited = 0) (hopens : m.opens = [])
    (hretires : retires m s t = []) : Tallies m s t t' c c := by
  refine .of_same ?_ hopens ?_ ?_
  · rw [Task.uncreated, Task.uncreated, hpc.1, hpc'.1]
  · rw [Task.unclosed, Task.unclosed, hpc.2, hpc'.2.1, hretires, List.length_nil]
  · rw [Task.waited, hpc'.2.2]
    exact Nat.zero_le _

theorem startAcquire_tallies (hpc : t.pc = .ready) (hretires : retires m s t = []) (hopens : m.opens = [])
    (h : startAcquire s t = (s', t')) : Tallies m s t t' c c := by
  have hidle : t.pc.uncreated = 0 ∧ t.pc.unclosed = 0 := by rw [hpc]; exact ⟨rfl, rfl⟩
  unfold startAcquire at h
  split at h
  · cases h
    exact .of_idle hidle ⟨rfl, rfl, rfl⟩ hopens hretires
  · cases h
    exact .of_idle hidle ⟨rfl, rfl, rfl⟩ hopens hretires

theorem begin_tallies (hpc : t.pc = .ready) (hwarm : t.warm = none) (h : begin m s t = some (s', t')) :
    Tallies m s t t' c c := by
  have hidle : t.pc.uncreated = 0 ∧ t.pc.unclosed = 0 := by rw [hpc]; exact ⟨rfl, rfl⟩
  have hready : t.pc.uncreated = 0 ∧ t.pc.unclosed = 0 ∧ t.pc.waited = 0 := by rw [hpc]; exact ⟨rfl, rfl, rfl⟩
  unfold begin at h
  split at h
  case h_1 => exact startAcquire_tallies hpc (by simp [retires, hpc]) rfl (Option.some.inj h)
  case h_2 =>
    split at h
    · cases h
    · cases h
      exact .of_idle hidle hready rfl (by simp [retires, hpc])
  case h_3 i =>
    split at h
    case h_1 => cases h
    case h_2 =>
      cases h
      exact .of_idle hidle ⟨rfl, rfl, rfl⟩ rfl (by simp [retires, hpc])
  case h_4 i =>
    split at h
    case h_1 => cases h
    case h_2 =>
      cases h
      exact .of_idle hidle hready rfl (by simp [retires, hpc])
  case h_5 unfit tooIdle =>
    cases h
    refine .of_same ?_ rfl ?_ (Nat.zero_le _)
    · rw [Task.uncreated, Task.uncreated, hpc]
      rfl
    · -- what the loop takes off the queue is what goes to the closer
      have hlength := length_reapRetired unfit tooIdle (s.idle.length - s.minIdle) s.idle
      simp only [Task.unclosed, retires, hpc, hwarm, Pc.unclosed, Option.isNone_none, if_true]
      omega
  case h_6 =>
    cases h
    exact .of_idle hidle ⟨rfl, rfl, rfl⟩ rfl (by simp [retires, hpc])
  case h_7 =>
    cases h
    exact .of_idle hidle ⟨rfl, rfl, rfl⟩ rfl (by simp [retires, hpc])
  case h_8 =>
    cases h
    exact .of_idle hidle hready rfl (by simp [retires, hpc])
  case h_9 =>
    cases h
    exact .of_idle hidle hready rfl (by simp [retires, hpc])
  case h_10 => cases h

theorem warm_tallies {k : ℕ} (hpc : t.pc = .ready) (hretires : retires m s t = []) (hopens : m.opens = [])
    (h : warm k s t = some (s', t')) : Tallies m s t t' c c := by
  have hidle : t.pc.uncreated = 0 ∧ t.pc.unclosed = 0 := by rw [hpc]; exact ⟨rfl, rfl⟩
  unfold warm at h
  split at h
  case h_1 => exact startAcquire_tallies hpc hretires hopens (Option.some.inj h)
  case h_2 =>
    cases h
    exact .of_idle hidle (by rw [hpc]; exact ⟨rfl, rfl, rfl⟩) hopens hretires
  case h_3 =>
    cases h
    exact .of_idle hidle ⟨rfl, rfl, rfl⟩ hopens hretires

/-- Between two calls only `recycle` counts. -/
theorem Tallies.of_ready (note : Note) (hpc : t.pc = .ready) (h : Tallies m s t t' c c) :
    Tallies m s t t' c (c.count m note s t) := by
  cases m with
  | discard =>
      simp only [Totals.count, hpc]
      exact ⟨h.created, h.closed, h.discarded, h.checkout, h.waits⟩
  | _ => simpa only [Totals.count, hpc] using h

/-- **What one move counts is what it does.** -/
theorem act_tallies (note : Note) (h : act m s t = some (s', t')) : Tallies m s t t' c (c.count m note s t) := by
  unfold act at h
  split at h
  case h_1 hpc =>
    apply Tallies.of_ready note hpc
    split at h
    case h_1 hwarm => exact begin_tallies hpc hwarm h
    case h_2 =>
      split at h
      case h_1 => exact warm_tallies hpc (by simp [retires, hpc]) rfl h
      case h_2 => cases h
  case h_3 hpc =>
    have hidle : t.pc.uncreated = 0 ∧ t.pc.unclosed = 0 := by rw [hpc]; exact ⟨rfl, rfl⟩
    simp only [Totals.count, hpc]
    split at h
    case isTrue =>
      cases h
      exact .of_idle hidle ⟨rfl, rfl, rfl⟩ rfl (by simp [retires, hpc])
    case isFalse =>
      split at h
      case isFalse => cases h
      case isTrue =>
        cases h
        exact .of_idle hidle ⟨rfl, rfl, rfl⟩ rfl (by simp [retires, hpc])
  case h_9 hpc =>
    simp only [Totals.count, hpc]
    split at h
    case h_1 hempty =>
      cases h
      exact .of_same (by simp [hpc]) rfl (by simp [retires, hpc]) (by simp [hpc])
    case h_2 c rest hidle =>
      cases h
      exact .of_same (by simp [hpc]) rfl (by simp [retires, hpc]) (by simp [hpc])
  case h_11 c unfit hpc =>
    split at h
    case isTrue hunfit =>
      cases h
      subst hunfit
      constructor <;> simp [Totals.count, hpc, retires, Move.opens, Totals.ended]
      omega
    case isFalse hunfit =>
      cases h
      obtain rfl := Bool.eq_false_iff.mpr hunfit
      constructor <;> simp [Totals.count, hpc, retires, Move.opens, Totals.ended]
      omega
  case h_17 co unfit hpc =>
    split at h
    case isTrue hretires =>
      cases h
      simp only [Totals.count, hpc]
      split_ifs with hunfit hdraining
      · constructor <;> simp [hpc, retires, Move.opens, hretires, Totals.ended]
        omega
      · constructor <;> simp [hpc, retires, Move.opens, hretires, Totals.ended]
      · simp [hunfit, hdraining] at hretires
    case isFalse hkeeps =>
      cases h
      simp only [Bool.or_eq_true, not_or, Bool.not_eq_true] at hkeeps
      obtain ⟨⟨hdiscard, hunfit⟩, hdraining⟩ := hkeeps
      simp only [Totals.count, hpc, hdiscard, hunfit, hdraining]
      exact .of_same (by simp [hpc]) rfl (by simp [retires, hpc, hdiscard, hdraining]) (by simp [hpc])
  case h_25 => cases h
  all_goals
    rename_i hpc
    cases h
    constructor <;> simp [Totals.count, hpc, retires, Move.opens, Totals.ended] <;> omega

/-! ## Runs -/

/-- What holds of the books in every state. -/
structure Balanced (b : Books κ) : Prop where
  bounded : Bounded b.pool
  created : b.totals.createdTotal + total Task.uncreated b.pool.procs = b.opened.length
  closed : b.totals.closedTotal + total Task.unclosed b.pool.procs = b.retired.length
  discarded : b.totals.discardedTotal ≤ b.totals.closedTotal
  checkout : b.totals.createdTotal ≤ b.totals.checkoutTotal
  waits : b.totals.ended + total Task.waited b.pool.procs ≤ b.totals.waitSamples
  micros : b.totals.waitMicrosTotal ≤ b.totals.waitSamples * b.totals.waitMicrosMax

theorem Balanced.new (κ : Type) (maxSize minIdle n : ℕ) : Balanced (Books.new κ maxSize minIdle n) := by
  refine ⟨Bounded.new κ maxSize minIdle n, ?_, ?_, le_refl _, le_refl _, ?_, le_refl _⟩ <;>
    simp [Books.new, Pool.new, total_replicate, Task.uncreated, Task.unclosed, Task.waited, Totals.ended]

/-- A wait is at most the longest one. -/
theorem Totals.micros_recordWait (h : c.waitMicrosTotal ≤ c.waitSamples * c.waitMicrosMax) (micros : ℕ) :
    (c.recordWait micros).waitMicrosTotal ≤ (c.recordWait micros).waitSamples * (c.recordWait micros).waitMicrosMax := by
  simp only [recordWait, Nat.add_mul, Nat.one_mul]
  have hold : c.waitSamples * c.waitMicrosMax ≤ c.waitSamples * max c.waitMicrosMax micros :=
    Nat.mul_le_mul_left _ (Nat.le_max_left _ _)
  omega

theorem Totals.micros_count (h : c.waitMicrosTotal ≤ c.waitSamples * c.waitMicrosMax) (note : Note) :
    (c.count m note s t).waitMicrosTotal ≤ (c.count m note s t).waitSamples * (c.count m note s t).waitMicrosMax := by
  unfold count
  split
  case h_2 => exact micros_recordWait (c := { c with timeoutTotal := c.timeoutTotal + 1 }) h note.micros
  case h_3 => exact micros_recordWait h note.micros
  case h_8 =>
    split
    · exact h
    · split
      · exact h
      · exact h
  all_goals exact h

theorem Balanced.step {b : Books κ} (h : Balanced b) (l : ℕ × Move κ × Note) : Balanced (b.step l) := by
  have hbounded : Bounded (b.step l).pool := by
    rw [Books.pool_step]
    exact h.bounded.step _
  obtain hsame | ⟨t, s', t', ht, hact, hstep⟩ := b.step_cases l
  · rw [hsame]
    exact h
  · rw [hstep] at hbounded ⊢
    obtain ⟨t₁, t₂, t₃, t₄, t₅⟩ := act_tallies (c := b.totals) l.2.2 hact
    have huncreated := total_set Task.uncreated t' ht
    have hunclosed := total_set Task.unclosed t' ht
    have hwaited := total_set Task.waited t' ht
    have hcreated := h.created
    have hclosed := h.closed
    have hdiscarded := h.discarded
    have hcheckout := h.checkout
    have hwaits := h.waits
    refine ⟨hbounded, ?_, ?_, ?_, ?_, ?_, Totals.micros_count h.micros l.2.2⟩
    all_goals
      simp only [List.length_append]
      omega

/-- The connections that the pool has: on its queue, or in the hands of a task. -/
def Books.has (b : Books κ) : List κ := b.pool.shared.idle ++ b.pool.procs.flatMap Task.inHand

/-- Every connection that was opened is somewhere, once. -/
def Placed (b : Books κ) : Prop := (b.has ++ b.retired).Perm b.opened

theorem count_flatMap_inHand [DecidableEq κ] (ts : List (Task κ)) (c : κ) :
    (ts.flatMap Task.inHand).count c = total (fun t => t.inHand.count c) ts := by
  rw [List.count_flatMap]
  rfl

theorem Placed.step {b : Books κ} (h : Placed b) (l : ℕ × Move κ × Note) : Placed (b.step l) := by
  classical
  obtain hsame | ⟨t, s', t', ht, hact, hstep⟩ := b.step_cases l
  · rw [hsame]
    exact h
  · rw [hstep]
    refine List.perm_iff_count.mpr fun c => ?_
    have hbefore := List.perm_iff_count.mp h c
    have hkept := act_conserves hact c
    have htotal := total_set (fun t => t.inHand.count c) t' ht
    simp only [Books.has, List.count_append, count_flatMap_inHand] at hbefore ⊢
    omega

theorem length_inHand (hpc : t.pc = .ready) : t.inHand.length = t.live := by
  simp [Task.inHand, hpc, Pc.inHand, Task.live]

theorem Pc.length_inHand_le (p : Pc κ) : p.inHand.length ≤ p.conns := by
  cases p <;> simp [Pc.inHand, Pc.conns]

theorem length_inHand_le (t : Task κ) : t.inHand.length ≤ t.conns := by
  have hpc := t.pc.length_inHand_le
  simp only [Task.inHand, Task.conns, Task.live, List.length_append, List.length_map]
  omega

theorem Books.length_has (b : Books κ) :
    b.has.length = b.pool.shared.idle.length + total (fun t => t.inHand.length) b.pool.procs := by
  rw [has, List.length_append, List.length_flatMap]
  rfl

/-- Between calls nobody has anything to count, and what the tasks have in hand are their checkouts. -/
theorem Balanced.settled {b : Books κ} (hb : Balanced b) (hplaced : Placed b) (hquiet : Quiescent b.pool) :
    b.totals.createdTotal = b.opened.length ∧ b.totals.closedTotal = b.retired.length ∧
      b.pool.shared.active + b.pool.shared.idleCount = b.totals.createdTotal - b.totals.closedTotal := by
  have huncreated : total Task.uncreated b.pool.procs = 0 := total_eq_zero fun t ht => by simp [(hquiet t ht).1]
  have hunclosed : total Task.unclosed b.pool.procs = 0 := total_eq_zero fun t ht => by simp [(hquiet t ht).1]
  have hdebt : total Task.idleDebt b.pool.procs = 0 :=
    total_eq_zero fun t ht => by rw [Task.idleDebt, (hquiet t ht).1, Pc.idleDebt_ready]
  have hlive : total (fun t => t.inHand.length) b.pool.procs = total Task.live b.pool.procs :=
    total_congr fun t ht => length_inHand (hquiet t ht).1
  have hlength := hplaced.length_eq
  rw [List.length_append, Books.length_has, hlive] at hlength
  have hcreated := hb.created
  have hclosed := hb.closed
  have hactive := hb.bounded.active
  have hidle := hb.bounded.idle
  exact ⟨by omega, by omega, by omega⟩

theorem Balanced.length_has_le {b : Books κ} (hb : Balanced b) : b.has.length ≤ b.pool.shared.maxSize := by
  have hconns := hb.bounded.conns
  have hhands := total_le length_inHand_le b.pool.procs
  rw [Books.length_has]
  omega

theorem run_balanced (κ : Type) (maxSize minIdle n : ℕ) (ls : List (ℕ × Move κ × Note)) :
    let b := run Books.step (Books.new κ maxSize minIdle n) ls
    Balanced b ∧ Placed b ∧ b.pool.shared.maxSize = maxSize := by
  refine run_invariant (I := fun b => Balanced b ∧ Placed b ∧ b.pool.shared.maxSize = maxSize) (fun b l h => ?_)
    ⟨Balanced.new κ maxSize minIdle n, ?_, rfl⟩ ls
  · refine ⟨h.1.step l, h.2.1.step l, ?_⟩
    rw [Books.pool_step]
    exact (step_maxSize _ _).trans h.2.2
  · simp [Placed, Books.has, Books.new, Pool.new, Task.inHand, Pc.inHand]

end Havuz.Pool
