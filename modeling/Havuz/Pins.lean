import Mathlib
import Havuz.Flow
import Havuz.Lib.Counting
import Havuz.Lib.Interleave
import Havuz.Lib.Run
import Havuz.Text

/-!
# Why sessions stopped being shareable

Reference: `havuz-proto/src/pins.rs`, and `PinReason` of `havuz-proto/src/flow.rs`. A session that ends records why it
was pinned in two steps, the total of the reason without the lock and the entry under it, and between the two any number
of others may record theirs. `reset` clears the entries under the lock and then stores a zero in one counter after the
other. An instant is a number of milliseconds. The rate is the quotient before it is rounded to `f32`.

`Recorded` is the registry with the recordings under way. Whatever the order, every counter has counted what came since
it was last zeroed, and the detail is that of the first 1024 different keys (`report_exact`).
-/

namespace Havuz

open Lib

namespace PinReason

/-- `PinReason::ALL`. -/
def all : List PinReason :=
  [.sessionParameter, .listen, .tempTable, .advisoryLock, .serverSidePrepare, .holdableCursor, .bulkTransfer,
    .replication, .procedureState, .unclassified]

def asStr : PinReason → Text
  | .sessionParameter => "session_parameter".toList
  | .listen => "listen".toList
  | .tempTable => "temp_table".toList
  | .advisoryLock => "advisory_lock".toList
  | .serverSidePrepare => "server_side_prepare".toList
  | .holdableCursor => "holdable_cursor".toList
  | .bulkTransfer => "bulk_transfer".toList
  | .replication => "replication".toList
  | .procedureState => "procedure_state".toList
  | .unclassified => "unclassified".toList

def isActionable : PinReason → Bool
  | .replication => false
  | .unclassified => false
  | _ => true

/-- The order of a reason is that of its declaration. -/
def index (r : PinReason) : ℕ := all.idxOf r

theorem mem_all (r : PinReason) : r ∈ all := by
  cases r <;> decide

theorem nodup_all : all.Nodup := by decide

theorem index_injective : Function.Injective index := fun r _ h => (List.idxOf_inj (mem_all r)).mp h

end PinReason

@[ext] structure PinKey where
  user : Text
  application : Text
  reason : PinReason
deriving DecidableEq

namespace PinKey

/-- The order of a key is that of its three parts. -/
def parts (k : PinKey) : Text ×ₗ Text ×ₗ ℕ := toLex (k.user, toLex (k.application, k.reason.index))

theorem parts_injective : Function.Injective parts := by
  intro k k' h
  simp only [parts, EmbeddingLike.apply_eq_iff_eq, Prod.mk.injEq] at h
  obtain ⟨huser, happlication, hreason⟩ := h
  exact PinKey.ext huser happlication (PinReason.index_injective hreason)

instance : LinearOrder PinKey := LinearOrder.lift' parts parts_injective

end PinKey

structure PinEntry where
  count : ℕ
  firstSeen : ℕ
  lastSeen : ℕ
deriving DecidableEq

def maxEntries : ℕ := 1024

structure PinRegistry where
  entries : SortedMap PinKey PinEntry := .empty
  totals : PinReason → ℕ := fun _ => 0
  unpinned : ℕ := 0
  dropped : ℕ := 0

structure ReasonCount where
  reason : PinReason
  count : ℕ
deriving DecidableEq

structure PinOffender where
  user : Text
  application : Text
  reason : PinReason
  actionable : Bool
  count : ℕ
  firstSeenSecsAgo : ℕ
  lastSeenSecsAgo : ℕ
deriving DecidableEq

structure PinReport where
  pinnedSessions : ℕ
  cleanSessions : ℕ
  pinRate : Option ℚ
  byReason : List ReasonCount
  offenders : List PinOffender
  truncated : Bool

namespace PinEntry

/-- One more of a key. -/
def touch (now : ℕ) : Option PinEntry → PinEntry
  | some entry => { entry with count := entry.count + 1, lastSeen := now }
  | none => ⟨1, now, now⟩

/-- The entry of a key that came at these times. -/
def ofTimes : List ℕ → Option PinEntry
  | [] => none
  | t :: ts => some ⟨ts.length + 1, t, ts.getLastD t⟩

theorem ofTimes_snoc (ts : List ℕ) (now : ℕ) : ofTimes (ts ++ [now]) = some (touch now (ofTimes ts)) := by
  cases ts with
  | nil => rfl
  | cons t ts => simp [ofTimes, touch]

end PinEntry

/-- Loudest first, and by name where two are as loud. -/
def PinOffender.before (a b : PinOffender) : Bool :=
  b.count < a.count || (a.count == b.count && decide (a.user ≤ b.user))

/-- What the report has under a reason. -/
def PinReport.detail (report : PinReport) (reason : PinReason) : ℕ :=
  ((report.offenders.filter fun o => o.reason = reason).map PinOffender.count).sum

namespace PinRegistry

/-- `PinRegistry::record`, in front of the lock. -/
def recordTotal (reason : PinReason) (r : PinRegistry) : PinRegistry :=
  { r with totals := Function.update r.totals reason (r.totals reason + 1) }

/-- `PinRegistry::record`, under the lock. -/
def recordEntry (key : PinKey) (now : ℕ) (r : PinRegistry) : PinRegistry :=
  match r.entries.get key with
  | some entry => { r with entries := r.entries.insert key { entry with count := entry.count + 1, lastSeen := now } }
  | none =>
      if maxEntries ≤ r.entries.entries.length then { r with dropped := r.dropped + 1 }
      else { r with entries := r.entries.insert key ⟨1, now, now⟩ }

def recordClean (r : PinRegistry) : PinRegistry := { r with unpinned := r.unpinned + 1 }

def totalFor (r : PinRegistry) (reason : PinReason) : ℕ := r.totals reason

def pinnedTotal (r : PinRegistry) : ℕ := (PinReason.all.map r.totals).sum

def unpinnedTotal (r : PinRegistry) : ℕ := r.unpinned

def pinRate (r : PinRegistry) : Option ℚ :=
  let total := r.pinnedTotal + r.unpinnedTotal
  if 0 < total then some (r.pinnedTotal / total) else none

/-- A second is a thousand milliseconds. -/
def offender (now : ℕ) (e : PinKey × PinEntry) : PinOffender :=
  { user := e.1.user
    application := e.1.application
    reason := e.1.reason
    actionable := e.1.reason.isActionable
    count := e.2.count
    firstSeenSecsAgo := (now - e.2.firstSeen) / 1000
    lastSeenSecsAgo := (now - e.2.lastSeen) / 1000 }

def report (r : PinRegistry) (now : ℕ) : PinReport :=
  { pinnedSessions := r.pinnedTotal
    cleanSessions := r.unpinnedTotal
    pinRate := r.pinRate
    byReason := PinReason.all.map fun reason => ⟨reason, r.totalFor reason⟩
    offenders := (r.entries.entries.map (offender now)).mergeSort PinOffender.before
    truncated := 0 < r.dropped }

/-- Under the lock the entries are a table with a cap. -/
theorem recordEntry_eq (r : PinRegistry) (key : PinKey) (now : ℕ) : r.recordEntry key now =
    { r with
      entries := Capped.upsert maxEntries r.entries (key, PinEntry.touch now)
      dropped := r.dropped +
        if (r.entries.get key).isSome = true ∨ r.entries.entries.length < maxEntries then 0 else 1 } := by
  unfold recordEntry Capped.upsert
  cases hkey : r.entries.get key with
  | some entry => simp [PinEntry.touch]
  | none =>
      by_cases hfull : maxEntries ≤ r.entries.entries.length
      · simp [hfull]
      · simp [hfull, PinEntry.touch]

end PinRegistry

/-! ## Sessions that record at the same time -/

/-- The registry, with the recordings that are counted and not entered. Which were entered since the entries were last
cleared, and when, is written down for the proofs. -/
structure Recorded where
  registry : PinRegistry := {}
  pending : List PinKey := []
  entered : List (PinKey × ℕ) := []

namespace Recorded

inductive Event where
  /-- A pinned session is counted. No application name is a dash. -/
  | record (user : Text) (application : Option Text) (reason : PinReason)
  /-- One of those counted gets the lock. -/
  | enter (i now : ℕ)
  | recordClean
  -- `reset` is these, one after the other
  | clear
  | zeroTotal (reason : PinReason)
  | zeroUnpinned
  | zeroDropped
deriving DecidableEq

/-- `PinRegistry::reset`. -/
def Event.reset : List Event := [.clear] ++ PinReason.all.map .zeroTotal ++ [.zeroUnpinned, .zeroDropped]

/-- One of those counted gets the lock. -/
def enter (i now : ℕ) (s : Recorded) : Recorded :=
  match s.pending[i]? with
  | none => s
  | some key =>
      { registry := s.registry.recordEntry key now
        pending := s.pending.eraseIdx i
        entered := s.entered ++ [(key, now)] }

def step (s : Recorded) : Event → Recorded
  | .record user application reason =>
      { s with
        registry := s.registry.recordTotal reason
        pending := s.pending ++ [⟨user, application.getD ['-'], reason⟩] }
  | .enter i now => s.enter i now
  | .recordClean => { s with registry := s.registry.recordClean }
  | .clear => { s with registry := { s.registry with entries := .empty }, entered := [] }
  | .zeroTotal reason =>
      { s with registry := { s.registry with totals := Function.update s.registry.totals reason 0 } }
  | .zeroUnpinned => { s with registry := { s.registry with unpinned := 0 } }
  | .zeroDropped => { s with registry := { s.registry with dropped := 0 } }

theorem enter_cases (s : Recorded) (i now : ℕ) : s.enter i now = s ∨
    ∃ key, s.pending[i]? = some key ∧ s.enter i now =
      { registry := s.registry.recordEntry key now
        pending := s.pending.eraseIdx i
        entered := s.entered ++ [(key, now)] } := by
  cases hkey : s.pending[i]? with
  | none => exact .inl (by rw [enter, hkey])
  | some key => exact .inr ⟨key, rfl, by rw [enter, hkey]⟩

/-- A reset that nothing interrupts leaves a new registry. -/
theorem run_reset {s : Recorded} (hpending : s.pending = []) : run step s Event.reset = {} := by
  obtain ⟨r, pending, entered⟩ := s
  obtain rfl : pending = [] := hpending
  have htotals : (run step ⟨r, [], entered⟩ Event.reset).registry.totals = fun _ => 0 := by
    funext reason
    cases reason <;> rfl
  exact congrArg (fun totals => (⟨{ totals }, [], []⟩ : Recorded)) htotals

/-- What the updates of the entries were. -/
def updates (s : Recorded) : List (Capped.Update PinKey PinEntry) := s.entered.map fun e => (e.1, PinEntry.touch e.2)

/-- The keys with an entry: the first 1024 different ones. -/
def tracked (s : Recorded) : List PinKey := firstKeys maxEntries (s.entered.map Prod.fst)

theorem keys_updates (s : Recorded) : Capped.keys s.updates = s.entered.map Prod.fst := by
  rw [Capped.keys, updates, List.map_map]
  rfl

def Event.records (reason : PinReason) : Event → Bool
  | .record _ _ r => r = reason
  | _ => false

theorem recordEntry_totals (r : PinRegistry) (key : PinKey) (now : ℕ) :
    (r.recordEntry key now).totals = r.totals ∧ (r.recordEntry key now).unpinned = r.unpinned := by
  rw [r.recordEntry_eq]
  exact ⟨rfl, rfl⟩

/-- What a step does to the total of a reason. -/
theorem totals_step (s : Recorded) (l : Event) (reason : PinReason) : (s.step l).registry.totals reason =
    if l = .zeroTotal reason then 0 else s.registry.totals reason + if l.records reason = true then 1 else 0 := by
  cases l with
  | record user application r =>
      by_cases hr : r = reason
      · subst hr
        simp [step, PinRegistry.recordTotal, Event.records]
      · simp [step, PinRegistry.recordTotal, Event.records, hr, Function.update_of_ne (Ne.symm hr)]
  | enter i now =>
      obtain hsame | ⟨key, -, hstep⟩ := s.enter_cases i now
      · simp [step, hsame, Event.records]
      · simp [step, hstep, recordEntry_totals, Event.records]
  | zeroTotal r =>
      by_cases hr : r = reason
      · subst hr
        simp [step]
      · simp [step, Event.records, hr, Function.update_of_ne (Ne.symm hr)]
  | _ => simp [step, PinRegistry.recordClean, Event.records]

/-- What a step does to the number of clean sessions. -/
theorem unpinned_step (s : Recorded) (l : Event) : (s.step l).registry.unpinned =
    if l = .zeroUnpinned then 0 else s.registry.unpinned + if l = .recordClean then 1 else 0 := by
  cases l with
  | enter i now =>
      obtain hsame | ⟨key, -, hstep⟩ := s.enter_cases i now
      · simp [step, hsame]
      · simp [step, hstep, recordEntry_totals]
  | _ => simp [step, PinRegistry.recordTotal, PinRegistry.recordClean]

/-- What a step does to the entries, if it is not a `clear`. -/
theorem entries_step (s : Recorded) {l : Event} (hl : l ≠ .clear) :
    (s.step l).registry.entries = s.registry.entries ∧ (s.step l).updates = s.updates ∨
      ∃ u, (s.step l).registry.entries = Capped.upsert maxEntries s.registry.entries u ∧
        (s.step l).updates = s.updates ++ [u] := by
  cases l with
  | enter i now =>
      obtain hsame | ⟨key, -, hstep⟩ := s.enter_cases i now
      · exact .inl ⟨by rw [step, hsame], by rw [step, hsame]⟩
      · refine .inr ⟨(key, PinEntry.touch now), ?_, ?_⟩
        · rw [step, hstep, PinRegistry.recordEntry_eq]
        · simp [step, hstep, updates]
  | clear => exact absurd rfl hl
  | _ => exact .inl ⟨rfl, rfl⟩

/-- The registry is what the log says. -/
structure Exact (ls : List Event) (s : Recorded) : Prop where
  entries : s.registry.entries = Capped.build maxEntries s.updates
  totals : ∀ reason, s.registry.totals reason = (since (· = .zeroTotal reason) ls).countP (·.records reason)
  unpinned : s.registry.unpinned = (since (· = .zeroUnpinned) ls).countP (· = .recordClean)

variable {s : Recorded} {ls : List Event}

theorem Exact.new : Exact [] {} := ⟨rfl, fun _ => rfl, rfl⟩

theorem Exact.step (h : Exact ls s) (l : Event) : Exact (ls ++ [l]) (s.step l) := by
  refine ⟨?_, fun reason => ?_, ?_⟩
  · by_cases hl : l = .clear
    · subst hl
      rfl
    · obtain ⟨hentries, hupdates⟩ | ⟨u, hentries, hupdates⟩ := s.entries_step hl
      · rw [hentries, hupdates, h.entries]
      · rw [hentries, hupdates, h.entries, Capped.build_snoc]
  · rw [totals_step, countP_since_snoc, h.totals reason]
    simp
  · rw [unpinned_step, countP_since_snoc, h.unpinned]
    simp

/-! ## Without a reset -/

def Event.resets : Event → Bool
  | .clear => true
  | .zeroTotal _ => true
  | .zeroUnpinned => true
  | .zeroDropped => true
  | _ => false

/-- As long as nothing is reset, every recording is counted, and it is entered, refused or still to be entered. -/
structure Whole (s : Recorded) : Prop where
  totals : ∀ reason, s.registry.totals reason = (s.entered.map Prod.fst ++ s.pending).countP (·.reason = reason)
  dropped : s.registry.dropped = Capped.refused maxEntries s.updates

theorem Whole.new : Whole {} := ⟨fun _ => rfl, rfl⟩

theorem Whole.step (hexact : Exact ls s) (h : s.Whole) {l : Event} (hl : l.resets = false) : (s.step l).Whole := by
  cases l with
  | record user application r =>
      refine ⟨fun reason => ?_, h.dropped⟩
      rw [totals_step, h.totals reason]
      by_cases hr : r = reason <;> simp [Recorded.step, Event.records, hr, Nat.add_assoc]
  | enter i now =>
      obtain hsame | ⟨key, hkey, hstep⟩ := s.enter_cases i now
      · rw [Recorded.step, hsame]
        exact h
      · rw [Recorded.step, hstep]
        refine ⟨fun reason => ?_, ?_⟩
        · have hperm := perm_eraseIdx hkey
          rw [(recordEntry_totals _ _ _).1, h.totals reason]
          refine List.Perm.countP_eq _ ?_
          rw [List.map_append, List.append_assoc]
          exact hperm.append_left _
        · have hentries := hexact.entries
          have hupdates : updates ⟨s.registry.recordEntry key now, s.pending.eraseIdx i, s.entered ++ [(key, now)]⟩ =
              s.updates ++ [(key, PinEntry.touch now)] := by simp [updates]
          rw [hupdates, Capped.refused_snoc, ← hentries, ← h.dropped, PinRegistry.recordEntry_eq]
  | recordClean => exact ⟨h.totals, h.dropped⟩
  | _ => cases hl

/-! ## The report -/

/-- When a key was entered. -/
def times (log : List (PinKey × ℕ)) (key : PinKey) : List ℕ := (log.filter fun e => e.1 = key).map Prod.snd

theorem length_times (log : List (PinKey × ℕ)) (key : PinKey) :
    (times log key).length = log.countP fun e => e.1 = key := by
  rw [times, List.length_map, List.countP_eq_length_filter]

theorem times_snoc (log : List (PinKey × ℕ)) (e : PinKey × ℕ) (key : PinKey) :
    times (log ++ [e]) key = times log key ++ if e.1 = key then [e.2] else [] := by
  rw [times, List.filter_append, List.map_append]
  by_cases hkey : e.1 = key <;> simp [times, hkey]

/-- What the updates make of a key is what its times are. -/
theorem value_updates (s : Recorded) (key : PinKey) :
    Capped.value s.updates key = PinEntry.ofTimes (times s.entered key) := by
  rw [updates]
  induction s.entered using List.reverseRecOn with
  | nil => rfl
  | append_singleton log e ih =>
      rw [List.map_append, List.map_singleton, Capped.value_snoc, ih, times_snoc]
      by_cases hkey : e.1 = key
      · rw [if_pos hkey, if_pos hkey, PinEntry.ofTimes_snoc]
      · rw [if_neg hkey, if_neg hkey, List.append_nil]

/-- What the report says of a key that came at these times. -/
def offenderOf (now : ℕ) (log : List (PinKey × ℕ)) (key : PinKey) : PinOffender :=
  { user := key.user
    application := key.application
    reason := key.reason
    actionable := key.reason.isActionable
    count := (times log key).length
    firstSeenSecsAgo := (now - (times log key).headD now) / 1000
    lastSeenSecsAgo := (now - (times log key).getLastD now) / 1000 }

theorem offender_eq (now : ℕ) {log : List (PinKey × ℕ)} {e : PinKey × PinEntry}
    (he : PinEntry.ofTimes (times log e.1) = some e.2) : PinRegistry.offender now e = offenderOf now log e.1 := by
  rw [offenderOf]
  cases htimes : times log e.1 with
  | nil =>
      rw [htimes] at he
      cases he
  | cons t ts =>
      rw [htimes] at he
      rw [PinRegistry.offender, ← Option.some.inj he, List.getLastD_cons]
      rfl

theorem entry_of_exact (h : Exact ls s) {e : PinKey × PinEntry} (he : e ∈ s.registry.entries.entries) :
    e.1 ∈ s.tracked ∧ PinEntry.ofTimes (times s.entered e.1) = some e.2 := by
  have hget := SortedMap.get_of_mem he
  rw [h.entries, Capped.get_build, keys_updates] at hget
  split_ifs at hget with hmem
  exact ⟨hmem, by rw [← value_updates, hget]⟩

/-- The offenders are the first keys, each with what was entered of it. -/
theorem offenders_perm (h : Exact ls s) (now : ℕ) :
    (s.registry.report now).offenders.Perm (s.tracked.map (offenderOf now s.entered)) := by
  have hkeys : s.registry.entries.keys.Perm s.tracked := by
    refine (List.perm_ext_iff_of_nodup (SortedMap.nodup_keys _) (firstKeys.nodup _ _)).mpr fun key => ?_
    rw [SortedMap.mem_keys, h.entries, Capped.isSome_get_build, keys_updates]
  have hmap : s.registry.entries.entries.map (PinRegistry.offender now) =
      s.registry.entries.keys.map (offenderOf now s.entered) := by
    rw [SortedMap.keys, List.map_map]
    exact List.map_congr_left fun e he => offender_eq now (entry_of_exact h he).2
  refine (List.mergeSort_perm _ _).trans ?_
  rw [hmap]
  exact hkeys.map _

theorem before_trans (a b c : PinOffender) (hab : a.before b = true) (hbc : b.before c = true) :
    a.before c = true := by
  simp only [PinOffender.before, Bool.or_eq_true, Bool.and_eq_true, decide_eq_true_eq, beq_iff_eq] at *
  rcases hab with hab | ⟨hab, huser⟩
  · rcases hbc with hbc | ⟨hbc, -⟩
    · exact .inl (by omega)
    · exact .inl (by omega)
  · rcases hbc with hbc | ⟨hbc, huser'⟩
    · exact .inl (by omega)
    · exact .inr ⟨hab.trans hbc, le_trans huser huser'⟩

theorem before_total (a b : PinOffender) : (a.before b || b.before a) = true := by
  simp only [PinOffender.before, Bool.or_eq_true, Bool.and_eq_true, decide_eq_true_eq, beq_iff_eq]
  rcases Nat.lt_trichotomy a.count b.count with hlt | heq | hlt
  · exact .inr (.inl hlt)
  · rcases le_total a.user b.user with hle | hle
    · exact .inl (.inr ⟨heq, hle⟩)
    · exact .inr (.inr ⟨heq.symm, hle⟩)
  · exact .inl (.inl hlt)

/-- Under a reason the report has what was entered under one of the first keys. -/
theorem detail_report (h : Exact ls s) (now : ℕ) (reason : PinReason) : (s.registry.report now).detail reason =
    s.entered.countP fun e => e.1 ∈ s.tracked.filter fun key => key.reason = reason := by
  have hperm := ((offenders_perm h now).filter fun o => o.reason = reason).map PinOffender.count
  have hnodup : (s.tracked.filter fun key => key.reason = reason).Nodup := (firstKeys.nodup _ _).filter _
  rw [PinReport.detail, hperm.sum_eq, ← sum_countP Prod.fst hnodup, List.filter_map, List.map_map]
  refine congrArg List.sum (List.map_congr_left fun key _ => ?_)
  exact length_times s.entered key

/-- **The pin report is exact.** In every interleaving of sessions that record and of resets: a total has counted what
came since it was last set to zero; the detail is that of the first 1024 different keys entered since it was last
cleared, each with its number and its times, the loudest first. As long as nothing was reset no reason has more detail
than its total, and if the report is not truncated and nobody is about to enter a recording, as much. -/
theorem report_exact (ls : List Event) (now : ℕ) :
    let s := run step {} ls
    let report := s.registry.report now
    report.byReason =
        PinReason.all.map (fun r => ⟨r, (since (· = .zeroTotal r) ls).countP (·.records r)⟩) ∧
      report.cleanSessions = (since (· = .zeroUnpinned) ls).countP (· = .recordClean) ∧
      report.offenders.Perm ((firstKeys maxEntries (s.entered.map Prod.fst)).map (offenderOf now s.entered)) ∧
      report.offenders.Pairwise (fun a b => a.before b = true) ∧ report.offenders.length ≤ maxEntries ∧
      ((∀ l ∈ ls, l.resets = false) → ∀ reason,
        report.detail reason ≤ s.registry.totalFor reason ∧
          (report.truncated = false → s.pending = [] →
            report.detail reason = s.registry.totalFor reason)) := by
  intro s report
  have hexact : Exact ls s := run_history (fun _ s l h => h.step l) Exact.new ls
  refine ⟨?_, hexact.unpinned, offenders_perm hexact now, ?_, ?_, fun hresets reason => ?_⟩
  · exact List.map_congr_left fun r _ => by rw [PinRegistry.totalFor, hexact.totals r]
  · exact List.pairwise_mergeSort before_trans before_total _
  · rw [(offenders_perm hexact now).length_eq, List.length_map]
    exact firstKeys.length_le _ _
  · have halong : Along step (fun _ l => l.resets = false) {} ls := .of_forall fun l hl _ => hresets l hl
    have hwhole : Whole s :=
      (Along.history (I := fun ls s => Exact ls s ∧ s.Whole) (fun _ s l h hl => ⟨h.1.step l, h.2.step h.1 hl⟩) halong
        ⟨Exact.new, Whole.new⟩).2
    have htotal : s.registry.totalFor reason =
        s.entered.countP (fun e => e.1.reason = reason) + s.pending.countP (·.reason = reason) := by
      rw [PinRegistry.totalFor, hwhole.totals reason, List.countP_append, List.countP_map]
      rfl
    have hle : (s.entered.countP fun e => e.1 ∈ s.tracked.filter fun key => key.reason = reason) ≤
        s.entered.countP fun e => e.1.reason = reason :=
      List.countP_mono_left fun e _ he => decide_eq_true (of_decide_eq_true (List.mem_filter.mp (of_decide_eq_true he)).2)
    rw [detail_report hexact, htotal]
    refine ⟨by omega, fun htruncated hpending => ?_⟩
    have hnone : Capped.refused maxEntries s.updates = 0 := by
      rw [← hwhole.dropped]
      exact Nat.eq_zero_of_not_pos (of_decide_eq_false htruncated)
    have hall : ∀ e ∈ s.entered, e.1 ∈ s.tracked := by
      intro e he
      have hin := List.countP_eq_zero.mp hnone (e.1, PinEntry.touch e.2) (List.mem_map_of_mem he)
      rw [keys_updates] at hin
      show e.1 ∈ firstKeys maxEntries (s.entered.map Prod.fst)
      simpa using hin
    rw [hpending, List.countP_nil, Nat.add_zero]
    exact List.countP_congr fun e he => by simp [hall e he]

end Recorded

end Havuz
