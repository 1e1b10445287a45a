import Mathlib
import Havuz.Pool.Ledger
import Havuz.Text

/-!
# What a pool reports

Reference: `Counters::snapshot` and `PoolSnapshot::merge` of `havuz-pool/src/counters.rs`, `combined_pool_snapshot` of
`havuz-pg/src/group.rs`, `combined_snapshot` of `havuz-pg/src/family.rs`.

A configured pool is many: a primary and its replicas, and one such group for every user that runs as itself. Their
snapshots are folded into one, in which the totals are the sums (`Sums`), and so is what the totals of one pool say about
the rest of it (`combined_snapshot_sums`). The counters are read at one moment.
-/

namespace Havuz.Pool

open Lib

variable {κ : Type}

/-- `PoolStatus::as_str`. -/
def Status.asStr : Status → Text
  | .active => "active".toList
  | .paused => "paused".toList
  | .draining => "draining".toList
  | .closed => "closed".toList

structure WaitStats where
  samples : ℕ
  meanMicros : ℕ
  maxMicros : ℕ
deriving DecidableEq, Repr

structure PoolSnapshot where
  name : Text
  status : Text
  active : ℤ
  idle : ℤ
  /-- `open`. -/
  opened : ℤ
  waiting : ℤ
  maxSize : ℕ
  maxClientConnections : ℕ
  createdTotal : ℕ
  closedTotal : ℕ
  checkoutTotal : ℕ
  timeoutTotal : ℕ
  connectErrorTotal : ℕ
  discardedTotal : ℕ
  uncleanTotal : ℕ
  wait : WaitStats
deriving DecidableEq, Repr

/-- `Counters::snapshot`. -/
def Books.snapshot (name : Text) (maxClients : ℕ) (b : Books κ) : PoolSnapshot :=
  { name
    status := b.pool.shared.status.asStr
    active := b.pool.shared.active
    idle := b.pool.shared.idleCount
    opened := b.pool.shared.active + b.pool.shared.idleCount
    waiting := b.pool.shared.waiting
    maxSize := b.pool.shared.maxSize
    maxClientConnections := maxClients
    createdTotal := b.totals.createdTotal
    closedTotal := b.totals.closedTotal
    checkoutTotal := b.totals.checkoutTotal
    timeoutTotal := b.totals.timeoutTotal
    connectErrorTotal := b.totals.connectErrorTotal
    discardedTotal := b.totals.discardedTotal
    uncleanTotal := b.totals.uncleanTotal
    wait :=
      { samples := b.totals.waitSamples
        meanMicros := if b.totals.waitSamples = 0 then 0 else b.totals.waitMicrosTotal / b.totals.waitSamples
        maxMicros := b.totals.waitMicrosMax } }

/-- `u32::MAX`. -/
def maxU32 : ℕ := 2 ^ 32 - 1

/-- `PoolSnapshot::merge`. -/
def PoolSnapshot.merge (p other : PoolSnapshot) : PoolSnapshot :=
  let totalMicros := p.wait.meanMicros * p.wait.samples + other.wait.meanMicros * other.wait.samples
  let samples := p.wait.samples + other.wait.samples
  { p with
    active := p.active + other.active
    idle := p.idle + other.idle
    opened := p.opened + other.opened
    waiting := p.waiting + other.waiting
    createdTotal := p.createdTotal + other.createdTotal
    closedTotal := p.closedTotal + other.closedTotal
    checkoutTotal := p.checkoutTotal + other.checkoutTotal
    timeoutTotal := p.timeoutTotal + other.timeoutTotal
    connectErrorTotal := p.connectErrorTotal + other.connectErrorTotal
    discardedTotal := p.discardedTotal + other.discardedTotal
    uncleanTotal := p.uncleanTotal + other.uncleanTotal
    maxSize := min (p.maxSize + other.maxSize) maxU32
    wait :=
      { samples
        meanMicros := if samples = 0 then 0 else totalMicros / samples
        maxMicros := max p.wait.maxMicros other.wait.maxMicros } }

/-- A `Pool` of one target, as it is after some run. -/
structure Target (κ : Type) where
  name : Text
  maxClients : ℕ
  maxSize : ℕ
  /-- A `u32`. -/
  fits : maxSize ≤ maxU32
  books : Books κ
  reached : ∃ minIdle n ls, books = run Books.step (Books.new κ maxSize minIdle n) ls

structure PoolGroup (κ : Type) where
  name : Text
  primary : Target κ
  replicas : List (Target κ)

/-- The service account's connections, and the users' that run as themselves. -/
structure PoolEntry (κ : Type) where
  shared : PoolGroup κ
  perUser : List (Text × PoolGroup κ)

def Target.snapshot (t : Target κ) : PoolSnapshot := t.books.snapshot t.name t.maxClients

def PoolGroup.combinedPoolSnapshot (G : PoolGroup κ) : PoolSnapshot :=
  G.replicas.foldl (fun combined t => combined.merge t.snapshot) { G.primary.snapshot with name := G.name }

def PoolEntry.combinedSnapshot (e : PoolEntry κ) : PoolSnapshot :=
  e.perUser.foldl (fun combined user => combined.merge user.2.combinedPoolSnapshot) e.shared.combinedPoolSnapshot

def PoolGroup.targets (G : PoolGroup κ) : List (Target κ) := G.primary :: G.replicas

def PoolEntry.targets (e : PoolEntry κ) : List (Target κ) :=
  e.shared.targets ++ e.perUser.flatMap fun user => user.2.targets

/-! ## Sums -/

/-- The snapshot of several pools. -/
structure Sums (p : PoolSnapshot) (ts : List (Target κ)) : Prop where
  active : p.active = (ts.map fun t => t.books.pool.shared.active).sum
  idle : p.idle = (ts.map fun t => t.books.pool.shared.idleCount).sum
  opened : p.opened = p.active + p.idle
  waiting : p.waiting = (ts.map fun t => t.books.pool.shared.waiting).sum
  maxSize : p.maxSize = min (ts.map Target.maxSize).sum maxU32
  created : p.createdTotal = (ts.map fun t => t.books.totals.createdTotal).sum
  closed : p.closedTotal = (ts.map fun t => t.books.totals.closedTotal).sum
  checkout : p.checkoutTotal = (ts.map fun t => t.books.totals.checkoutTotal).sum
  timeout : p.timeoutTotal = (ts.map fun t => t.books.totals.timeoutTotal).sum
  connectError : p.connectErrorTotal = (ts.map fun t => t.books.totals.connectErrorTotal).sum
  discarded : p.discardedTotal = (ts.map fun t => t.books.totals.discardedTotal).sum
  unclean : p.uncleanTotal = (ts.map fun t => t.books.totals.uncleanTotal).sum
  samples : p.wait.samples = (ts.map fun t => t.books.totals.waitSamples).sum
  /-- The mean is that of all the waits, less than a microsecond lost for each of the pools. -/
  mean_le : p.wait.meanMicros * p.wait.samples ≤ (ts.map fun t => t.books.totals.waitMicrosTotal).sum
  le_mean : (ts.map fun t => t.books.totals.waitMicrosTotal).sum ≤ (p.wait.meanMicros + ts.length) * p.wait.samples
  longest : p.wait.maxMicros = (ts.map fun t => t.books.totals.waitMicrosMax).foldr max 0
  mean_le_longest : p.wait.meanMicros ≤ p.wait.maxMicros

variable {p q : PoolSnapshot} {ts us : List (Target κ)}

/-- A quotient of whole numbers is less than one below. -/
theorem le_div_succ_mul (a b : ℕ) (h : b = 0 → a = 0) : a ≤ (a / b + 1) * b := by
  by_cases hb : b = 0
  · rw [h hb]
    exact Nat.zero_le _
  · exact (Nat.lt_mul_of_div_lt (Nat.lt_succ_self _) (Nat.pos_of_ne_zero hb)).le

theorem Target.balanced (t : Target κ) :
    Balanced t.books ∧ Placed t.books ∧ t.books.pool.shared.maxSize = t.maxSize := by
  obtain ⟨minIdle, n, ls, hreached⟩ := t.reached
  rw [hreached]
  exact run_balanced κ t.maxSize minIdle n ls

theorem Sums.snapshot (t : Target κ) : Sums t.snapshot [t] := by
  obtain ⟨hb, -, hmax⟩ := t.balanced
  have hmicros := hb.micros
  have hnone : t.books.totals.waitSamples = 0 → t.books.totals.waitMicrosTotal = 0 := by
    intro hzero
    rw [hzero, Nat.zero_mul] at hmicros
    exact Nat.le_zero.mp hmicros
  constructor
  case maxSize =>
    have hfits := t.fits
    simp [Target.snapshot, Books.snapshot, hmax, hfits]
  case mean_le =>
    simp only [Target.snapshot, Books.snapshot, List.map_singleton, List.sum_singleton]
    split_ifs with hzero
    · rw [Nat.zero_mul]
      exact Nat.zero_le _
    · exact Nat.div_mul_le_self _ _
  case le_mean =>
    simp only [Target.snapshot, Books.snapshot, List.map_singleton, List.sum_singleton, List.length_singleton]
    split_ifs with hzero
    · rw [hnone hzero]
      exact Nat.zero_le _
    · exact le_div_succ_mul _ _ hnone
  case mean_le_longest =>
    simp only [Target.snapshot, Books.snapshot]
    split_ifs with hzero
    · exact Nat.zero_le _
    · rw [Nat.mul_comm] at hmicros
      exact Nat.div_le_of_le_mul (by rwa [Nat.mul_comm] at hmicros)
  all_goals simp [Target.snapshot, Books.snapshot]

/-- Another name changes nothing that is summed. -/
theorem Sums.rename (h : Sums p ts) (name : Text) : Sums { p with name } ts := by
  cases h
  constructor <;> assumption

theorem foldr_max_append (as bs : List ℕ) : (as ++ bs).foldr max 0 = max (as.foldr max 0) (bs.foldr max 0) := by
  induction as with
  | nil => simp
  | cons a as ih => rw [List.cons_append, List.foldr_cons, List.foldr_cons, ih, max_assoc]

/-- A mean of two means is no longer than the longer. -/
theorem merged_mean_le {m m' s s' l l' : ℕ} (h : m ≤ l) (h' : m' ≤ l') :
    (m * s + m' * s') / (s + s') ≤ max l l' := by
  have hm : m * s ≤ max l l' * s := Nat.mul_le_mul_right s (h.trans (Nat.le_max_left _ _))
  have hm' : m' * s' ≤ max l l' * s' := Nat.mul_le_mul_right s' (h'.trans (Nat.le_max_right _ _))
  refine Nat.div_le_of_le_mul ?_
  rw [Nat.mul_comm (s + s'), Nat.mul_add]
  exact Nat.add_le_add hm hm'

/-- A mean of two means loses what they have lost, and less than one more. -/
theorem le_merged_mean {m m' s s' k k' t t' : ℕ} (h : t ≤ (m + (k + 1)) * s) (h' : t' ≤ (m' + (k' + 1)) * s') :
    t + t' ≤ ((m * s + m' * s') / (s + s') + (k + 1 + (k' + 1))) * (s + s') := by
  have hdiv := le_div_succ_mul (m * s + m' * s') (s + s') fun hzero => by
    obtain ⟨rfl, rfl⟩ := Nat.add_eq_zero_iff.mp hzero
    rfl
  generalize (m * s + m' * s') / (s + s') = mean at hdiv ⊢
  calc t + t' ≤ (m + (k + 1)) * s + (m' + (k' + 1)) * s' := Nat.add_le_add h h'
    _ = m * s + m' * s' + ((k + 1) * s + (k' + 1) * s') := by ring
    _ ≤ (mean + 1) * (s + s') + ((k + 1) * s + (k' + 1) * s' + (k' * s + k * s')) :=
        Nat.add_le_add hdiv (Nat.le_add_right _ _)
    _ = (mean + (k + 1 + (k' + 1))) * (s + s') := by ring

/-- **Merging adds.** -/
theorem Sums.merge (h : Sums p ts) (h' : Sums q us) (hts : ts ≠ []) (hus : us ≠ []) : Sums (p.merge q) (ts ++ us) := by
  have hlen := List.length_pos_iff.mpr hts
  have hlen' := List.length_pos_iff.mpr hus
  constructor
  case opened =>
    simp only [PoolSnapshot.merge, h.opened, h'.opened]
    omega
  case maxSize =>
    simp only [PoolSnapshot.merge, h.maxSize, h'.maxSize, List.map_append, List.sum_append]
    omega
  case mean_le =>
    simp only [PoolSnapshot.merge, List.map_append, List.sum_append]
    have hle := h.mean_le
    have hle' := h'.mean_le
    split_ifs with hzero
    · rw [Nat.zero_mul]
      exact Nat.zero_le _
    · exact (Nat.div_mul_le_self _ _).trans (Nat.add_le_add hle hle')
  case le_mean =>
    have hle := h.le_mean
    have hle' := h'.le_mean
    obtain ⟨k, hk⟩ := Nat.exists_eq_add_of_lt hlen
    obtain ⟨k', hk'⟩ := Nat.exists_eq_add_of_lt hlen'
    rw [hk, Nat.zero_add] at hle
    rw [hk', Nat.zero_add] at hle'
    have hmean := le_merged_mean hle hle'
    simp only [PoolSnapshot.merge, List.map_append, List.sum_append, List.length_append, hk, hk', Nat.zero_add]
    split_ifs with hzero
    · simpa [hzero] using hmean
    · exact hmean
  case longest =>
    simp only [PoolSnapshot.merge, h.longest, h'.longest, List.map_append, foldr_max_append]
  case mean_le_longest =>
    simp only [PoolSnapshot.merge]
    split_ifs with hzero
    · exact Nat.zero_le _
    · exact merged_mean_le h.mean_le_longest h'.mean_le_longest
  all_goals
    simp only [PoolSnapshot.merge, List.map_append, List.sum_append]
    cases h
    cases h'
    simp_all only

theorem Sums.foldl {A : Type} (snapshot : A → PoolSnapshot) (targets : A → List (Target κ))
    (hsums : ∀ a, Sums (snapshot a) (targets a)) (htargets : ∀ a, targets a ≠ []) (h : Sums p ts) (hts : ts ≠ [])
    (as : List A) : Sums (as.foldl (fun combined a => combined.merge (snapshot a)) p) (ts ++ as.flatMap targets) := by
  induction as generalizing p ts with
  | nil => rwa [List.flatMap_nil, List.append_nil]
  | cons a as ih =>
      rw [List.foldl_cons, List.flatMap_cons, ← List.append_assoc]
      exact ih (h.merge (hsums a) hts (htargets a)) (List.append_ne_nil_of_left_ne_nil hts _)

theorem Sums.group (G : PoolGroup κ) : Sums G.combinedPoolSnapshot G.targets := by
  have hsums := Sums.foldl Target.snapshot (fun t => [t]) Sums.snapshot (fun _ => List.cons_ne_nil _ _)
    ((Sums.snapshot G.primary).rename G.name) (List.cons_ne_nil _ _) G.replicas
  rwa [List.flatMap_singleton', List.singleton_append] at hsums

theorem Sums.entry (e : PoolEntry κ) : Sums e.combinedSnapshot e.targets :=
  .foldl (fun user : Text × PoolGroup κ => user.2.combinedPoolSnapshot) (fun user => user.2.targets)
    (fun user => .group user.2) (fun _ => List.cons_ne_nil _ _) (.group e.shared) (List.cons_ne_nil _ _) e.perUser

/-- Between calls a pool has what was created and not closed, and nobody waits for it. -/
theorem Target.settled (t : Target κ) (hquiet : Quiescent t.books.pool) :
    t.books.pool.shared.active + t.books.pool.shared.idleCount =
        t.books.totals.createdTotal - t.books.totals.closedTotal ∧
      t.books.pool.shared.active + t.books.pool.shared.idleCount ≤ t.maxSize ∧ t.books.pool.shared.waiting = 0 := by
  obtain ⟨hb, hplaced, hmax⟩ := t.balanced
  obtain ⟨hcreated, hclosed, hgauges⟩ := hb.settled hplaced hquiet
  have hlength := hplaced.length_eq
  have hhas := hb.length_has_le
  have hwaiting : total Task.waiting t.books.pool.procs = 0 :=
    total_eq_zero fun t ht => by rw [Task.waiting, (hquiet t ht).1, Pc.waiting_ready]
  rw [List.length_append] at hlength
  refine ⟨hgauges, by omega, ?_⟩
  rw [hb.bounded.waiting, hwaiting]
  rfl

theorem cast_sum (f : Target κ → ℕ) (ts : List (Target κ)) : ((ts.map f).sum : ℤ) = (ts.map fun t => (f t : ℤ)).sum := by
  induction ts with
  | nil => rfl
  | cons t ts ih => rw [List.map_cons, List.map_cons, List.sum_cons, List.sum_cons, Nat.cast_add, ih]

end Havuz.Pool
