import Mathlib
import Havuz.Lib.Entries
import Havuz.Lib.Interleave
import Havuz.Trace.Capture

/-!
# The query trace

Reference: `TraceStore` and `TraceSpan` of `havuz-control/src/trace.rs`. Statements that run are in memory. One that has
ended goes through a channel to the writer thread, which takes up to 128 and inserts them into the database in one
transaction. Any number of sessions, the writer, the administrators and the retention take turns: a step is one section
under a lock, one operation on the channel or one transaction.

A number and the entry under it are one step, since nobody knows the number before `begin` returns. Times are handed in,
and how a statement can be cancelled is an `H`. The database is the rows of its table; a transaction fails for a reason
of its own, or because a number is taken. A result is kept as it is and not as JSON.

`begun`, `lost` and `armed` are written for the proofs: what each number was given out for, which traces are gone for
good, and which hooks were armed.
-/

namespace Havuz.Trace

open Lib

inductive TraceLevel where
  | off
  | statements
  | full
deriving DecidableEq, Repr

def TraceLevel.isOff : TraceLevel → Bool
  | .off => true
  | _ => false

def TraceLevel.capturesResults : TraceLevel → Bool
  | .full => true
  | _ => false

structure TraceContext where
  pool : Text
  user : Text
  application : Option Text
  clientAddr : Text
  level : TraceLevel
deriving DecidableEq

/-- `"waiting"` and `"running"`. -/
inductive Phase where
  | waiting
  | running
deriving DecidableEq, Repr

/-- `ActiveTrace`, with the hook of its `ActiveEntry`. -/
structure ActiveEntry (H : Type) where
  startedAtMs : ℤ
  pool : Text
  user : Text
  application : Option Text
  clientAddr : Text
  sql : Text
  phase : Phase := .waiting
  target : Option Text := none
  backendPid : Option ℕ := none
  cancellable : Bool := false
  cancel : Option H := none

structure TraceSummary where
  id : ℕ
  startedAtMs : ℤ
  durationUs : ℕ
  waitUs : ℕ
  executionUs : ℕ
  pool : Text
  user : Text
  application : Option Text
  clientAddr : Text
  sql : Text
  status : Text
  target : Option Text
  backendPid : Option ℕ
  commandTag : Option Text
  rowCount : ℕ
  resultTruncated : Bool
  errorCode : Option Text
  errorMessage : Option Text
deriving DecidableEq

structure QueryResult where
  sets : List ResultSet
  omitted : Bool
deriving DecidableEq

structure CompletedTrace where
  summary : TraceSummary
  result : QueryResult
deriving DecidableEq

/-- `TraceSpan`, which knows its store; while it completes, with what it is about to send. -/
structure TraceSpan where
  id : ℕ
  waitUs : ℕ := 0
  capture : ResultCapture
  finished : Bool
  sending : Option CompletedTrace := none
deriving DecidableEq

inductive WriterPhase where
  /-- It takes traces off the channel, and waits for the first of them. -/
  | gathering
  | inserting
  /-- The retention is to be looked after. -/
  | cleaning
deriving DecidableEq, Repr

/-- The writer thread. -/
structure Writer where
  phase : WriterPhase := .gathering
  batch : List CompletedTrace := []
  writes : ℕ := 0
  nextCleanup : ℕ := 256

/-- The writer behind its transaction. -/
def Writer.written (w : Writer) : Writer :=
  let writes := w.writes + w.batch.length
  { w with
    phase := if w.nextCleanup ≤ writes then .cleaning else .gathering
    batch := []
    writes }

/-- Who asked for a statement, and what it is. -/
structure Origin where
  pool : Text
  user : Text
  application : Option Text
  clientAddr : Text
  sql : Text
deriving DecidableEq

structure TraceStore (H : Type) where
  nextId : ℕ
  active : SortedMap ℕ (ActiveEntry H) := .empty
  spans : List TraceSpan := []
  channel : List CompletedTrace := []
  writer : Writer := {}
  table : SortedMap ℕ CompletedTrace
  begun : List (ℕ × Origin)
  lost : List (ℕ × Origin) := []
  armed : List (ℕ × H) := []

def retentionMs : ℤ := 7 * 24 * 60 * 60 * 1000

/-- The first, and `completed_rx.try_iter().take(127)`. -/
def maxBatch : ℕ := 128

def TraceContext.origin (c : TraceContext) (sql : Text) : Origin := ⟨c.pool, c.user, c.application, c.clientAddr, sql⟩

def ActiveEntry.origin {H : Type} (e : ActiveEntry H) : Origin := ⟨e.pool, e.user, e.application, e.clientAddr, e.sql⟩

/-- What `TraceStore::begin` enters. -/
def ActiveEntry.waiting {H : Type} (context : TraceContext) (sql : Text) (now : ℤ) : ActiveEntry H :=
  { startedAtMs := now
    pool := context.pool
    user := context.user
    application := context.application
    clientAddr := context.clientAddr
    sql }

/-- The number of a trace, and what it was given out for. -/
def CompletedTrace.entry (c : CompletedTrace) : ℕ × Origin :=
  (c.summary.id, ⟨c.summary.pool, c.summary.user, c.summary.application, c.summary.clientAddr, c.summary.sql⟩)

namespace TraceStore

variable {H : Type}

/-- `DELETE FROM query_traces WHERE started_at_ms < ?1`, at `now`. -/
def expire (table : SortedMap ℕ CompletedTrace) (now : ℤ) : SortedMap ℕ CompletedTrace :=
  table.filter fun e => !decide (e.2.summary.startedAtMs < now - retentionMs)

/-- `TraceStore::from_connection`. -/
def fromConnection (H : Type) (table : SortedMap ℕ CompletedTrace) (now : ℤ) : TraceStore H :=
  let table := expire table now
  { nextId := (table.keys.foldl max 0) + 1
    table
    begun := table.entries.map fun e => e.2.entry }

/-- `TraceStore::inert`. -/
def inert : TraceSpan := { id := 0, capture := .new false, finished := true }

/-- `TraceStore::begin`. -/
def begin (s : TraceStore H) (context : TraceContext) (sql : Text) (now : ℤ) : TraceStore H :=
  if context.level.isOff then { s with spans := s.spans ++ [inert] }
  else
    { s with
      nextId := s.nextId + 1
      active := s.active.insert s.nextId (.waiting context sql now)
      spans := s.spans ++ [{ id := s.nextId, capture := .new context.level.capturesResults, finished := false }]
      begun := s.begun ++ [(s.nextId, context.origin sql)] }

/-- `TraceStore::record_failure`, up to the channel. -/
def recordFailure (s : TraceStore H) (context : TraceContext) (operation : Text) (waitedUs : ℕ) (code message : Text)
    (now : ℤ) : TraceStore H :=
  if context.level.isOff then s
  else
    let summary : TraceSummary :=
      { id := s.nextId
        startedAtMs := now - waitedUs / 1000
        durationUs := waitedUs
        waitUs := waitedUs
        executionUs := 0
        pool := context.pool
        user := context.user
        application := context.application
        clientAddr := context.clientAddr
        sql := operation
        status := "failed".toList
        target := none
        backendPid := none
        commandTag := none
        rowCount := 0
        resultTruncated := false
        errorCode := some code
        errorMessage := some message }
    { s with
      nextId := s.nextId + 1
      spans := s.spans ++
        [{ inert with sending := some ⟨summary, ⟨[], !context.level.capturesResults⟩⟩ }]
      begun := s.begun ++ [(s.nextId, context.origin operation)] }

/-- `TraceStore::assign`. -/
def assign (s : TraceStore H) (id : ℕ) (target : Text) (backendPid : Option ℕ) : TraceStore H :=
  match s.active.get id with
  | none => s
  | some e =>
      { s with
        active := s.active.insert id
          { e with phase := .running, target := some target, backendPid, cancellable := e.cancel.isSome } }

/-- `TraceStore::arm_cancel`. -/
def armCancel (s : TraceStore H) (id : ℕ) (hook : H) : TraceStore H :=
  match s.active.get id with
  | none => s
  | some e =>
      { s with
        active := s.active.insert id { e with cancellable := e.phase = .running, cancel := some hook }
        armed := s.armed ++ [(id, hook)] }

/-- `TraceStore::cancel_hook`. -/
def cancelHook (s : TraceStore H) (id : ℕ) : Option H := (s.active.get id).bind ActiveEntry.cancel

/-- What `TraceStore::complete` makes of a span and its entry. -/
def completed (span : TraceSpan) (e : ActiveEntry H) (status : Text) (error : Option (Text × Text))
    (durationUs : ℕ) : CompletedTrace :=
  let error := error.or span.capture.error
  { summary :=
      { id := span.id
        startedAtMs := e.startedAtMs
        durationUs
        waitUs := span.waitUs
        executionUs := durationUs - span.waitUs
        pool := e.pool
        user := e.user
        application := e.application
        clientAddr := e.clientAddr
        sql := e.sql
        status := if error.isSome then "failed".toList else status
        target := e.target
        backendPid := e.backendPid
        commandTag := span.capture.commandTag
        rowCount := span.capture.rowCount
        resultTruncated := span.capture.truncated
        errorCode := error.map Prod.fst
        errorMessage := error.map Prod.snd }
    result := ⟨span.capture.sets, !span.capture.keepRows⟩ }

/-- `TraceStore::complete`, up to the channel. -/
def complete (s : TraceStore H) (span : TraceSpan) (status : Text) (error : Option (Text × Text)) (durationUs : ℕ) :
    TraceStore H × TraceSpan :=
  if span.finished then (s, span)
  else
    match s.active.get span.id with
    | none => (s, { span with finished := true })
    | some e =>
        ({ s with active := s.active.erase span.id },
          { span with finished := true, sending := some (completed span e status error durationUs) })

/-- The rows of a batch, inserted one after the other: a number that is there already fails. -/
def insertTraces (table : SortedMap ℕ CompletedTrace) (batch : List CompletedTrace) :
    Option (SortedMap ℕ CompletedTrace) :=
  batch.foldlM (fun table c =>
    if (table.get c.summary.id).isSome then none else some (table.insert c.summary.id c)) table

/-- `recv` and `try_iter`: the writer takes the next trace, or its batch is complete. -/
def pull (s : TraceStore H) : TraceStore H :=
  match s.writer.phase with
  | .gathering =>
      if maxBatch ≤ s.writer.batch.length then { s with writer := { s.writer with phase := .inserting } }
      else
        match s.channel with
        | [] => if s.writer.batch = [] then s else { s with writer := { s.writer with phase := .inserting } }
        | c :: rest => { s with channel := rest, writer := { s.writer with batch := s.writer.batch ++ [c] } }
  | _ => s

/-- `insert_traces`, which may fail. -/
def insert (ok : Bool) (s : TraceStore H) : TraceStore H :=
  match s.writer.phase with
  | .inserting =>
      match if ok then insertTraces s.table s.writer.batch else none with
      | some table => { s with table, writer := s.writer.written }
      | none => { s with writer := s.writer.written, lost := s.lost ++ s.writer.batch.map CompletedTrace.entry }
  | _ => s

/-- The rows that the retention deletes. -/
def expired (table : SortedMap ℕ CompletedTrace) (now : ℤ) : List (ℕ × Origin) :=
  (table.entries.filter fun e => decide (e.2.summary.startedAtMs < now - retentionMs)).map fun e => e.2.entry

def cleanup (now : ℤ) (s : TraceStore H) : TraceStore H :=
  match s.writer.phase with
  | .cleaning =>
      { s with
        table := expire s.table now
        writer := { s.writer with phase := .gathering, nextCleanup := s.writer.writes + 256 }
        lost := s.lost ++ expired s.table now }
  | _ => s

/-- `TraceStore::clear`. -/
def clear (s : TraceStore H) : TraceStore H :=
  { s with table := .empty, lost := s.lost ++ s.table.entries.map fun e => e.2.entry }

/-- What a step of the system can be. A span is named by its place among those begun. -/
inductive Event (H : Type) where
  | begin (context : TraceContext) (sql : Text) (now : ℤ)
  | recordFailure (context : TraceContext) (operation : Text) (waitedUs : ℕ) (code message : Text) (now : ℤ)
  | assign (i : ℕ) (target : Text) (backendPid : Option ℕ) (elapsedUs : ℕ)
  | armCancel (i : ℕ) (hook : H)
  | call (i : ℕ) (c : Call)
  /-- `succeed`, `fail` or the drop of a span. -/
  | complete (i : ℕ) (status : Text) (error : Option (Text × Text)) (durationUs : ℕ)
  | send (i : ℕ)
  | pull
  | insert (ok : Bool)
  | cleanup (now : ℤ)
  | clear
  /-- The process ends, and another one opens the database. -/
  | restart (now : ℤ)

/-- What a call does to its span: the store, and the span behind it. -/
def onSpan (s : TraceStore H) (i : ℕ) (f : TraceSpan → TraceStore H × TraceSpan) : TraceStore H :=
  match s.spans[i]? with
  | none => s
  | some span => { (f span).1 with spans := s.spans.set i (f span).2 }

def step (s : TraceStore H) : Event H → TraceStore H
  | .begin context sql now => s.begin context sql now
  | .recordFailure context operation waitedUs code message now =>
      s.recordFailure context operation waitedUs code message now
  | .assign i target backendPid elapsedUs =>
      s.onSpan i fun span => (s.assign span.id target backendPid, { span with waitUs := elapsedUs })
  | .armCancel i hook => s.onSpan i fun span => (if span.finished then s else s.armCancel span.id hook, span)
  | .call i c => s.onSpan i fun span => (s, { span with capture := span.capture.call c })
  | .complete i status error durationUs => s.onSpan i fun span => s.complete span status error durationUs
  | .send i =>
      s.onSpan i fun span =>
        ({ s with channel := s.channel ++ span.sending.toList }, { span with sending := none })
  | .pull => s.pull
  | .insert ok => s.insert ok
  | .cleanup now => s.cleanup now
  | .clear => s.clear
  | .restart now => fromConnection H s.table now

/-! ## Where a trace is -/

/-- What the spans have still to send. -/
def outgoing (s : TraceStore H) : List CompletedTrace := s.spans.filterMap TraceSpan.sending

/-- The statements that run. -/
def running (active : SortedMap ℕ (ActiveEntry H)) : List (ℕ × Origin) := active.entries.map fun e => (e.1, e.2.origin)

def rows (table : SortedMap ℕ CompletedTrace) : List (ℕ × Origin) := table.entries.map fun e => e.2.entry

/-- All numbers that were given out: running, on their way to the table, in the table, or lost. -/
def everywhere (s : TraceStore H) : List (ℕ × Origin) :=
  running s.active ++ (s.outgoing ++ s.channel ++ s.writer.batch).map CompletedTrace.entry ++ rows s.table ++ s.lost

/-- The spans whose statement is not over. -/
def unfinished (s : TraceStore H) : List ℕ := (s.spans.filter fun span => !span.finished).map TraceSpan.id

/-- The hook that was last armed for a number. -/
def lastArmed (armed : List (ℕ × H)) (id : ℕ) : Option H := ((armed.filter fun a => a.1 = id).getLast?).map Prod.snd

/-- What holds of the store in every state. -/
structure Tracked (s : TraceStore H) : Prop where
  placed : s.everywhere.Perm s.begun
  positive : 0 < s.nextId
  numbers : ∀ b ∈ s.begun, 0 < b.1 ∧ b.1 < s.nextId
  once : (s.begun.map Prod.fst).Nodup
  keyed : ∀ e ∈ s.table.entries, e.2.summary.id = e.1
  unsent : ∀ span ∈ s.spans, span.finished = false → span.sending = none
  live : s.unfinished.Perm s.active.keys
  hooks : ∀ id e, s.active.get id = some e → e.cancel = lastArmed s.armed id ∧
    e.cancellable = (decide (e.phase = .running) && e.cancel.isSome)
  armed : ∀ a ∈ s.armed, a.1 < s.nextId

variable {s s' : TraceStore H}

theorem count_everywhere (s : TraceStore H) (b : ℕ × Origin) : s.everywhere.count b =
    (running s.active).count b + (s.outgoing.map CompletedTrace.entry).count b +
      (s.channel.map CompletedTrace.entry).count b + (s.writer.batch.map CompletedTrace.entry).count b +
      (rows s.table).count b + s.lost.count b := by
  simp only [everywhere, List.map_append, List.count_append]
  omega

/-- A trace moves, and nothing is given out. -/
theorem Tracked.of_moved (h : Tracked s) (hbegun : s'.begun = s.begun) (hnext : s'.nextId = s.nextId)
    (hspans : s'.spans = s.spans) (hactive : s'.active = s.active) (harmed : s'.armed = s.armed)
    (hkeyed : ∀ e ∈ s'.table.entries, e.2.summary.id = e.1)
    (hplaced : ∀ b, s'.everywhere.count b = s.everywhere.count b) : Tracked s' := by
  constructor
  case placed =>
    rw [hbegun]
    exact (List.perm_iff_count.mpr hplaced).trans h.placed
  case positive =>
    rw [hnext]
    exact h.positive
  case numbers =>
    rw [hbegun, hnext]
    exact h.numbers
  case once =>
    rw [hbegun]
    exact h.once
  case keyed => exact hkeyed
  case unsent =>
    rw [hspans]
    exact h.unsent
  case live =>
    rw [unfinished, hspans, hactive]
    exact h.live
  case hooks =>
    rw [hactive, harmed]
    exact h.hooks
  case armed =>
    rw [harmed, hnext]
    exact h.armed

/-! ## The writer and the table -/

theorem Tracked.pull (h : Tracked s) : Tracked s.pull := by
  unfold TraceStore.pull
  split
  · split
    · exact h.of_moved rfl rfl rfl rfl rfl h.keyed fun b => rfl
    · split
      · split
        · exact h
        · exact h.of_moved rfl rfl rfl rfl rfl h.keyed fun b => rfl
      · rename_i c rest hchannel
        refine h.of_moved rfl rfl rfl rfl rfl h.keyed fun b => ?_
        rw [count_everywhere, count_everywhere, hchannel]
        simp only [outgoing, List.map_append, List.map_cons, List.map_nil, List.count_append, List.count_cons,
          List.count_nil]
        omega
  · exact h

theorem insertTraces_cons (table : SortedMap ℕ CompletedTrace) (c : CompletedTrace) (batch : List CompletedTrace) :
    insertTraces table (c :: batch) = if (table.get c.summary.id).isSome = true then none
      else insertTraces (table.insert c.summary.id c) batch := by
  rw [insertTraces, List.foldlM_cons]
  split_ifs <;> rfl

/-- A transaction that does not fail adds its batch to the rows. -/
theorem rows_insertTraces {table table' : SortedMap ℕ CompletedTrace} {batch : List CompletedTrace}
    (h : insertTraces table batch = some table') (hkeyed : ∀ e ∈ table.entries, e.2.summary.id = e.1) :
    (rows table').Perm (batch.map CompletedTrace.entry ++ rows table) ∧ ∀ e ∈ table'.entries, e.2.summary.id = e.1 := by
  induction batch generalizing table with
  | nil =>
      cases h
      exact ⟨.refl _, hkeyed⟩
  | cons c batch ih =>
      rw [insertTraces_cons] at h
      split_ifs at h with hsome
      have hnone : table.get c.summary.id = none := by simpa using hsome
      have hperm := SortedMap.perm_insert_new (v := c) hnone
      obtain ⟨hrows, hkeyed'⟩ := ih h fun e he => by
        obtain rfl | he := List.mem_cons.mp (hperm.mem_iff.mp he)
        · rfl
        · exact hkeyed e he
      refine ⟨hrows.trans ?_, hkeyed'⟩
      exact ((hperm.map _).append_left _).trans List.perm_middle

/-- It fails only on a number that is taken. -/
theorem insertTraces_isSome {table : SortedMap ℕ CompletedTrace} {batch : List CompletedTrace}
    (hfresh : ∀ c ∈ batch, table.get c.summary.id = none) (hnodup : (batch.map fun c => c.summary.id).Nodup) :
    (insertTraces table batch).isSome = true := by
  induction batch generalizing table with
  | nil => rfl
  | cons c batch ih =>
      rw [insertTraces_cons, hfresh c List.mem_cons_self]
      obtain ⟨hnot, hnodup⟩ := List.nodup_cons.mp hnodup
      refine ih (fun d hd => ?_) hnodup
      have hne : d.summary.id ≠ c.summary.id := fun heq => hnot (List.mem_map.mpr ⟨d, hd, heq⟩)
      rw [SortedMap.get_insert, if_neg hne]
      exact hfresh d (List.mem_cons_of_mem c hd)

theorem Tracked.insert (h : Tracked s) (ok : Bool) : Tracked (s.insert ok) := by
  unfold TraceStore.insert
  split
  · split
    · rename_i table htable
      split_ifs at htable
      obtain ⟨hrows, hkeyed⟩ := rows_insertTraces htable h.keyed
      refine h.of_moved rfl rfl rfl rfl rfl hkeyed fun b => ?_
      have hcount := hrows.count_eq b
      rw [List.count_append] at hcount
      rw [count_everywhere, count_everywhere]
      simp only [outgoing, Writer.written, List.map_nil, List.count_nil]
      omega
    · refine h.of_moved rfl rfl rfl rfl rfl h.keyed fun b => ?_
      rw [count_everywhere, count_everywhere]
      simp only [outgoing, Writer.written, List.map_nil, List.count_nil, List.count_append]
      omega
  · exact h

/-- The retention keeps a row or takes it. -/
theorem count_expire (table : SortedMap ℕ CompletedTrace) (now : ℤ) (b : ℕ × Origin) :
    (rows (expire table now)).count b + (expired table now).count b = (rows table).count b := by
  have hperm := (table.perm_filter fun e => !decide (e.2.summary.startedAtMs < now - retentionMs)).map
    fun e => e.2.entry
  have hcount := hperm.count_eq b
  simp only [Bool.not_not, List.map_append, List.count_append] at hcount
  exact hcount.symm

theorem mem_expire {table : SortedMap ℕ CompletedTrace} {now : ℤ} {e : ℕ × CompletedTrace}
    (he : e ∈ (expire table now).entries) : e ∈ table.entries := (List.mem_filter.mp he).1

theorem Tracked.cleanup (h : Tracked s) (now : ℤ) : Tracked (s.cleanup now) := by
  unfold TraceStore.cleanup
  split
  · refine h.of_moved rfl rfl rfl rfl rfl (fun e he => h.keyed e (mem_expire he)) fun b => ?_
    have hcount := count_expire s.table now b
    rw [count_everywhere, count_everywhere]
    simp only [outgoing, List.count_append]
    omega
  · exact h

theorem Tracked.clear (h : Tracked s) : Tracked s.clear := by
  refine h.of_moved rfl rfl rfl rfl rfl (fun e he => absurd he List.not_mem_nil) fun b => ?_
  rw [count_everywhere, count_everywhere]
  simp only [TraceStore.clear, outgoing, List.count_append]
  have hnone : (rows SortedMap.empty).count b = 0 := rfl
  rw [hnone, rows]
  omega

/-! ## Calls on a span -/

theorem onSpan_cases (s : TraceStore H) (i : ℕ) (f : TraceSpan → TraceStore H × TraceSpan) : s.onSpan i f = s ∨
    ∃ span, s.spans[i]? = some span ∧ s.onSpan i f = { (f span).1 with spans := s.spans.set i (f span).2 } := by
  cases hspan : s.spans[i]? with
  | none => exact .inl (by rw [onSpan, hspan])
  | some span => exact .inr ⟨span, rfl, by rw [onSpan, hspan]⟩

variable {i : ℕ} {span : TraceSpan}

theorem filterMap_sending_cons (span : TraceSpan) (spans : List TraceSpan) :
    (span :: spans).filterMap TraceSpan.sending = span.sending.toList ++ spans.filterMap TraceSpan.sending := by
  cases hsending : span.sending <;> simp [List.filterMap_cons, hsending]

/-- What a span has still to send, before and behind a call. -/
theorem count_outgoing_set (hi : s.spans[i]? = some span) (span' : TraceSpan) (b : ℕ × Origin) :
    (((s.spans.set i span').filterMap TraceSpan.sending).map CompletedTrace.entry).count b +
        (span.sending.toList.map CompletedTrace.entry).count b =
      (s.outgoing.map CompletedTrace.entry).count b + (span'.sending.toList.map CompletedTrace.entry).count b := by
  have hbefore := (((perm_eraseIdx hi).filterMap TraceSpan.sending).map CompletedTrace.entry).count_eq b
  have hbehind := (((set_perm_eraseIdx span' hi).filterMap TraceSpan.sending).map CompletedTrace.entry).count_eq b
  rw [filterMap_sending_cons, List.map_append, List.count_append] at hbefore hbehind
  rw [outgoing]
  omega

/-- A call that neither begins nor ends a statement. -/
theorem Tracked.of_span (h : Tracked s) (hi : s.spans[i]? = some span) (span' : TraceSpan) (hid : span'.id = span.id)
    (hfinished : span'.finished = span.finished) (hunsent : span'.finished = false → span'.sending = none)
    (hspans : s'.spans = s.spans.set i span') (hbegun : s'.begun = s.begun) (hnext : s'.nextId = s.nextId)
    (htable : s'.table = s.table) (hkeys : s'.active.keys.Perm s.active.keys)
    (hhooks : ∀ id e, s'.active.get id = some e → e.cancel = lastArmed s'.armed id ∧
      e.cancellable = (decide (e.phase = .running) && e.cancel.isSome))
    (harmed : ∀ a ∈ s'.armed, a.1 < s.nextId) (hplaced : ∀ b, s'.everywhere.count b = s.everywhere.count b) :
    Tracked s' := by
  constructor
  case placed =>
    rw [hbegun]
    exact (List.perm_iff_count.mpr hplaced).trans h.placed
  case positive =>
    rw [hnext]
    exact h.positive
  case numbers =>
    rw [hbegun, hnext]
    exact h.numbers
  case once =>
    rw [hbegun]
    exact h.once
  case keyed =>
    rw [htable]
    exact h.keyed
  case unsent =>
    rw [hspans]
    intro span₀ hspan₀
    obtain rfl | hspan₀ := mem_of_mem_set hspan₀
    · exact hunsent
    · exact h.unsent span₀ hspan₀
  case live =>
    have hbefore := ((perm_eraseIdx hi).filter fun span => !span.finished).map TraceSpan.id
    have hbehind := ((set_perm_eraseIdx span' hi).filter fun span => !span.finished).map TraceSpan.id
    have hsame : ((span' :: s.spans.eraseIdx i).filter fun span => !span.finished).map TraceSpan.id =
        ((span :: s.spans.eraseIdx i).filter fun span => !span.finished).map TraceSpan.id := by
      rw [List.filter_cons, List.filter_cons, hfinished]
      split_ifs
      · rw [List.map_cons, List.map_cons, hid]
      · rfl
    rw [unfinished, hspans]
    rw [hsame] at hbehind
    exact (hbehind.trans hbefore.symm).trans (h.live.trans hkeys.symm)
  case hooks => exact hhooks
  case armed =>
    rw [hnext]
    exact harmed

theorem Tracked.call (h : Tracked s) (i : ℕ) (c : Call) : Tracked (s.step (.call i c)) := by
  obtain hsame | ⟨span, hi, hstep⟩ := s.onSpan_cases i fun span => (s, { span with capture := span.capture.call c })
  · rw [step, hsame]
    exact h
  · rw [step, hstep]
    refine h.of_span hi { span with capture := span.capture.call c } rfl rfl (h.unsent span (List.mem_of_getElem? hi)) rfl rfl rfl rfl (.refl _) h.hooks h.armed
      fun b => ?_
    have hcount := count_outgoing_set hi { span with capture := span.capture.call c } b
    rw [count_everywhere, count_everywhere]
    simp only [outgoing] at hcount ⊢
    omega

theorem Tracked.send (h : Tracked s) (i : ℕ) : Tracked (s.step (.send i)) := by
  obtain hsame | ⟨span, hi, hstep⟩ := s.onSpan_cases i fun span =>
    ({ s with channel := s.channel ++ span.sending.toList }, { span with sending := none })
  · rw [step, hsame]
    exact h
  · rw [step, hstep]
    refine h.of_span hi { span with sending := none } rfl rfl (fun _ => rfl) rfl rfl rfl rfl (.refl _) h.hooks h.armed fun b => ?_
    have hcount := count_outgoing_set hi { span with sending := none } b
    rw [count_everywhere, count_everywhere]
    simp only [outgoing, List.map_append, List.count_append, Option.toList_none, List.map_nil, List.count_nil] at hcount ⊢
    omega

/-- The statements that run stay the same when an entry is written over. -/
theorem running_insert {active : SortedMap ℕ (ActiveEntry H)} {id : ℕ} {e d : ActiveEntry H}
    (he : active.get id = some e) (horigin : d.origin = e.origin) :
    (running (active.insert id d)).Perm (running active) :=
  SortedMap.perm_insert_same he (by rw [horigin])

theorem running_new {active : SortedMap ℕ (ActiveEntry H)} {id : ℕ} (hnone : active.get id = none) (e : ActiveEntry H) :
    (running (active.insert id e)).Perm ((id, e.origin) :: running active) :=
  (SortedMap.perm_insert_new hnone).map fun a : ℕ × ActiveEntry H => (a.1, a.2.origin)

theorem lastArmed_snoc (armed : List (ℕ × H)) (id : ℕ) (hook : H) (j : ℕ) :
    lastArmed (armed ++ [(id, hook)]) j = if j = id then some hook else lastArmed armed j := by
  rw [lastArmed, List.filter_append]
  by_cases hj : j = id
  · simp [hj]
  · rw [if_neg hj, List.filter_cons_of_neg (by simpa using Ne.symm hj)]
    simp [lastArmed]

theorem Tracked.assign (h : Tracked s) (i : ℕ) (target : Text) (backendPid : Option ℕ) (elapsedUs : ℕ) :
    Tracked (s.step (.assign i target backendPid elapsedUs)) := by
  obtain hsame | ⟨span, hi, hstep⟩ := s.onSpan_cases i fun span =>
    (s.assign span.id target backendPid, { span with waitUs := elapsedUs })
  · rw [step, hsame]
    exact h
  · rw [step, hstep]
    have hcount := count_outgoing_set hi { span with waitUs := elapsedUs }
    have hunsent := h.unsent span (List.mem_of_getElem? hi)
    cases he : s.active.get span.id with
    | none =>
        have hassign : s.assign span.id target backendPid = s := by rw [TraceStore.assign, he]
        rw [hassign]
        refine h.of_span hi { span with waitUs := elapsedUs } rfl rfl hunsent rfl rfl rfl rfl (.refl _) h.hooks h.armed fun b => ?_
        have hb := hcount b
        rw [count_everywhere, count_everywhere]
        simp only [outgoing] at hb ⊢
        omega
    | some e =>
        rw [TraceStore.assign, he]
        refine h.of_span hi { span with waitUs := elapsedUs } rfl rfl hunsent rfl rfl rfl rfl (SortedMap.keys_insert_same he) (fun id e₀ he₀ => ?_)
          h.armed fun b => ?_
        · rw [SortedMap.get_insert] at he₀
          split_ifs at he₀ with hid
          · cases he₀
            obtain ⟨hcancel, -⟩ := h.hooks span.id e he
            exact ⟨by rw [hid]; exact hcancel, by simp⟩
          · exact h.hooks id e₀ he₀
        · have hb := hcount b
          have hrunning := (running_insert (d := { e with
            phase := .running, target := some target, backendPid, cancellable := e.cancel.isSome }) he rfl).count_eq b
          rw [count_everywhere, count_everywhere]
          simp only [outgoing] at hb ⊢
          omega

/-- A call that leaves the span as it was, and the store. -/
theorem Tracked.of_set_same (h : Tracked s) (hi : s.spans[i]? = some span) : Tracked { s with spans := s.spans.set i span } := by
  refine h.of_span hi span rfl rfl (h.unsent span (List.mem_of_getElem? hi)) rfl rfl rfl rfl (.refl _) h.hooks h.armed
    fun b => ?_
  have hcount := count_outgoing_set hi span b
  rw [count_everywhere, count_everywhere]
  simp only [outgoing] at hcount ⊢
  omega

/-- A number that runs was given out. -/
theorem Tracked.of_running (h : Tracked s) {id : ℕ} {e : ActiveEntry H} (he : s.active.get id = some e) :
    (id, e.origin) ∈ s.begun := by
  refine h.placed.mem_iff.mp ?_
  simp only [everywhere, List.mem_append]
  exact .inl (.inl (.inl (List.mem_map.mpr ⟨(id, e), SortedMap.mem_of_get he, rfl⟩)))

theorem Tracked.armCancel (h : Tracked s) (i : ℕ) (hook : H) : Tracked (s.step (.armCancel i hook)) := by
  obtain hsame | ⟨span, hi, hstep⟩ := s.onSpan_cases i fun span =>
    (if span.finished then s else s.armCancel span.id hook, span)
  · rw [step, hsame]
    exact h
  · rw [step, hstep]
    dsimp only
    split
    · exact h.of_set_same hi
    · cases he : s.active.get span.id with
      | none =>
          rw [TraceStore.armCancel, he]
          exact h.of_set_same hi
      | some e =>
          rw [TraceStore.armCancel, he]
          refine h.of_span hi span rfl rfl (h.unsent span (List.mem_of_getElem? hi)) rfl rfl rfl rfl
            (SortedMap.keys_insert_same he) (fun id e₀ he₀ => ?_) (fun a ha => ?_) fun b => ?_
          · rw [SortedMap.get_insert] at he₀
            rw [lastArmed_snoc]
            split_ifs at he₀ with hid
            · cases he₀
              exact ⟨by rw [if_pos hid], by simp⟩
            · rw [if_neg hid]
              exact h.hooks id e₀ he₀
          · obtain ha | ha := List.mem_append.mp ha
            · exact h.armed a ha
            · rw [List.mem_singleton.mp ha]
              exact (h.numbers _ (h.of_running he)).2
          · have hcount := count_outgoing_set hi span b
            have hrunning := (running_insert (d := { e with
              cancellable := decide (e.phase = .running), cancel := some hook }) he rfl).count_eq b
            rw [count_everywhere, count_everywhere]
            simp only [outgoing] at hcount ⊢
            omega

/-- A span that is not finished has its entry. -/
theorem Tracked.get_of_unfinished (h : Tracked s) (hspan : span ∈ s.spans) (hopen : span.finished = false) :
    ∃ e, s.active.get span.id = some e := by
  have hmem : span.id ∈ s.unfinished :=
    List.mem_map.mpr ⟨span, List.mem_filter.mpr ⟨hspan, by rw [hopen]; rfl⟩, rfl⟩
  exact Option.isSome_iff_exists.mp (SortedMap.mem_keys.mp (h.live.mem_iff.mp hmem))

theorem complete_eq {e : ActiveEntry H} (hopen : span.finished = false) (he : s.active.get span.id = some e)
    (status : Text) (error : Option (Text × Text)) (durationUs : ℕ) :
    ∃ done, s.complete span status error durationUs = ({ s with active := s.active.erase span.id }, done) ∧
      done.finished = true ∧ done.sending.toList.map CompletedTrace.entry = [(span.id, e.origin)] := by
  rw [TraceStore.complete, if_neg (by rw [hopen]; exact Bool.false_ne_true), he]
  exact ⟨_, rfl, rfl, rfl⟩

theorem Tracked.complete (h : Tracked s) (i : ℕ) (status : Text) (error : Option (Text × Text)) (durationUs : ℕ) :
    Tracked (s.step (.complete i status error durationUs)) := by
  obtain hsame | ⟨span, hi, hstep⟩ := s.onSpan_cases i fun span => s.complete span status error durationUs
  · rw [step, hsame]
    exact h
  · rw [step, hstep]
    cases hopen : span.finished with
    | true =>
        rw [TraceStore.complete, if_pos hopen]
        exact h.of_set_same hi
    | false =>
        -- the entry goes from those that run to those to be sent
        obtain ⟨e, he⟩ := h.get_of_unfinished (List.mem_of_getElem? hi) hopen
        have hunsent := h.unsent span (List.mem_of_getElem? hi) hopen
        obtain ⟨done, hdone, hfinished, hsending⟩ := complete_eq hopen he status error durationUs
        rw [hdone]
        constructor
        case placed =>
          refine (List.perm_iff_count.mpr fun b => ?_).trans h.placed
          have hcount := count_outgoing_set hi done b
          have hrunning := ((SortedMap.perm_erase he).map fun a => (a.1, ActiveEntry.origin a.2)).count_eq b
          rw [hsending, hunsent] at hcount
          rw [count_everywhere, count_everywhere]
          simp only [Option.toList_none, List.map_nil, List.map_cons, List.count_nil, List.count_cons, outgoing,
            running] at hcount hrunning ⊢
          omega
        case positive => exact h.positive
        case numbers => exact h.numbers
        case once => exact h.once
        case keyed => exact h.keyed
        case unsent =>
          intro span₀ hspan₀ hopen₀
          obtain rfl | hspan₀ := mem_of_mem_set hspan₀
          · rw [hfinished] at hopen₀
            cases hopen₀
          · exact h.unsent span₀ hspan₀ hopen₀
        case live =>
          have hbefore := ((perm_eraseIdx hi).filter fun span => !span.finished).map TraceSpan.id
          have hbehind := ((set_perm_eraseIdx done hi).filter fun span => !span.finished).map TraceSpan.id
          rw [List.filter_cons_of_pos (by rw [hopen]; rfl), List.map_cons] at hbefore
          rw [List.filter_cons_of_neg (by rw [hfinished]; exact Bool.false_ne_true)] at hbehind
          refine hbehind.trans ((List.perm_cons span.id).mp ?_)
          exact (hbefore.symm.trans h.live).trans ((SortedMap.perm_erase he).map Prod.fst)
        case hooks =>
          intro id e₀ he₀
          rw [SortedMap.get_erase] at he₀
          split_ifs at he₀
          exact h.hooks id e₀ he₀
        case armed => exact h.armed

/-! ## Numbers -/

/-- The next number is a new one. -/
theorem Tracked.given (h : Tracked s) (o : Origin) :
    (∀ b ∈ s.begun ++ [(s.nextId, o)], 0 < b.1 ∧ b.1 < s.nextId + 1) ∧
      ((s.begun ++ [(s.nextId, o)]).map Prod.fst).Nodup := by
  constructor
  · intro b hb
    obtain hb | hb := List.mem_append.mp hb
    · exact ⟨(h.numbers b hb).1, Nat.lt_succ_of_lt (h.numbers b hb).2⟩
    · rw [List.mem_singleton.mp hb]
      exact ⟨h.positive, Nat.lt_succ_self _⟩
  · have hnew : s.nextId ∉ s.begun.map Prod.fst := by
      intro hmem
      obtain ⟨b, hb, heq⟩ := List.mem_map.mp hmem
      have hlt := (h.numbers b hb).2
      omega
    rw [List.map_append, List.map_singleton, ← List.concat_eq_append, List.nodup_concat]
    exact ⟨hnew, h.once⟩

theorem Tracked.fresh (h : Tracked s) : s.active.get s.nextId = none ∧ lastArmed s.armed s.nextId = none := by
  constructor
  · cases he : s.active.get s.nextId with
    | none => rfl
    | some e => exact absurd (h.numbers _ (h.of_running he)).2 (Nat.lt_irrefl _)
  · have hnone : (s.armed.filter fun a => a.1 = s.nextId) = [] := by
      refine List.filter_eq_nil_iff.mpr fun a ha heq => ?_
      have hlt := h.armed a ha
      rw [of_decide_eq_true heq] at hlt
      exact Nat.lt_irrefl _ hlt
    rw [lastArmed, hnone]
    rfl

/-- A span more that is over already. -/
theorem unsent_snoc (h : Tracked s) {new : TraceSpan} (hnew : new.finished = false → new.sending = none) :
    ∀ span ∈ s.spans ++ [new], span.finished = false → span.sending = none := by
  intro span hspan hopen
  obtain hspan | hspan := List.mem_append.mp hspan
  · exact h.unsent span hspan hopen
  · rw [List.mem_singleton.mp hspan] at hopen ⊢
    exact hnew hopen

theorem Tracked.begin (h : Tracked s) (context : TraceContext) (sql : Text) (now : ℤ) :
    Tracked (s.begin context sql now) := by
  unfold TraceStore.begin
  split
  · constructor
    case placed =>
      refine (List.perm_iff_count.mpr fun b => ?_).trans h.placed
      rw [count_everywhere, count_everywhere]
      simp [outgoing, inert]
    case positive => exact h.positive
    case numbers => exact h.numbers
    case once => exact h.once
    case keyed => exact h.keyed
    case unsent => exact unsent_snoc h fun _ => rfl
    case live => simpa [unfinished, inert] using h.live
    case hooks => exact h.hooks
    case armed => exact h.armed
  · obtain ⟨hfresh, hunarmed⟩ := h.fresh
    constructor
    case placed =>
      refine List.perm_iff_count.mpr fun b => ?_
      have hbefore := h.placed.count_eq b
      have hrunning := (running_new hfresh (.waiting context sql now)).count_eq b
      rw [count_everywhere] at hbefore ⊢
      simp only [outgoing, List.filterMap_append, List.map_append, List.count_append] at hbefore ⊢
      rw [hrunning, List.count_cons, List.count_singleton]
      have horigin : (ActiveEntry.waiting context sql now : ActiveEntry H).origin = context.origin sql := rfl
      simp only [List.filterMap_cons, List.filterMap_nil, List.map_nil, List.count_nil, horigin]
      omega
    case positive => exact Nat.succ_pos _
    case numbers => exact (h.given _).1
    case once => exact (h.given _).2
    case keyed => exact h.keyed
    case unsent => exact unsent_snoc h fun _ => rfl
    case live =>
      have hkeys := (SortedMap.perm_insert_new (v := ActiveEntry.waiting context sql now) hfresh).map Prod.fst
      have hunfinished := (h.live.cons s.nextId).trans hkeys.symm
      refine List.Perm.trans ?_ hunfinished
      rw [unfinished, List.filter_append, List.map_append]
      exact List.perm_append_singleton _ _
    case hooks =>
      intro id e he
      rw [SortedMap.get_insert] at he
      split_ifs at he with hid
      · cases he
        rw [hid, hunarmed]
        exact ⟨rfl, rfl⟩
      · exact h.hooks id e he
    case armed => exact fun a ha => Nat.lt_succ_of_lt (h.armed a ha)

theorem Tracked.recordFailure (h : Tracked s) (context : TraceContext) (operation : Text) (waitedUs : ℕ)
    (code message : Text) (now : ℤ) : Tracked (s.recordFailure context operation waitedUs code message now) := by
  unfold TraceStore.recordFailure
  split
  · exact h
  · constructor
    case placed =>
      refine List.perm_iff_count.mpr fun b => ?_
      have hbefore := h.placed.count_eq b
      rw [count_everywhere] at hbefore ⊢
      simp only [outgoing, List.filterMap_append, List.map_append, List.count_append] at hbefore ⊢
      show _ + (_ + [(s.nextId, context.origin operation)].count b) + _ + _ + _ + _ = _
      omega
    case positive => exact Nat.succ_pos _
    case numbers => exact (h.given _).1
    case once => exact (h.given _).2
    case keyed => exact h.keyed
    case unsent =>
      refine unsent_snoc h fun hopen => ?_
      cases hopen
    case live => simpa [unfinished, inert] using h.live
    case hooks => exact h.hooks
    case armed => exact fun a ha => Nat.lt_succ_of_lt (h.armed a ha)

theorem le_foldl_max (l : List ℕ) (a : ℕ) : a ≤ l.foldl max a ∧ ∀ b ∈ l, b ≤ l.foldl max a := by
  induction l generalizing a with
  | nil => exact ⟨le_refl a, fun b hb => absurd hb List.not_mem_nil⟩
  | cons c l ih =>
      obtain ⟨hle, hall⟩ := ih (max a c)
      refine ⟨(Nat.le_max_left a c).trans hle, fun b hb => ?_⟩
      obtain rfl | hb := List.mem_cons.mp hb
      · exact (Nat.le_max_right a b).trans hle
      · exact hall b hb

/-- A database whose rows have numbers of their own is opened. -/
theorem Tracked.fromConnection {table : SortedMap ℕ CompletedTrace}
    (hkeyed : ∀ e ∈ table.entries, e.2.summary.id = e.1) (hpositive : ∀ e ∈ table.entries, 0 < e.1) (now : ℤ) :
    Tracked (fromConnection H table now) := by
  have hnumbers : (rows (expire table now)).map Prod.fst = (expire table now).keys := by
    rw [rows, List.map_map]
    exact List.map_congr_left fun e he => hkeyed e (mem_expire he)
  constructor
  case placed =>
    simp [everywhere, TraceStore.fromConnection, running, outgoing, rows, SortedMap.empty]
  case positive => exact Nat.succ_pos _
  case numbers =>
    intro b hb
    obtain ⟨e, he, rfl⟩ := List.mem_map.mp hb
    have hid : e.2.entry.1 = e.1 := hkeyed e (mem_expire he)
    rw [hid]
    exact ⟨hpositive e (mem_expire he), Nat.lt_succ_of_le ((le_foldl_max _ 0).2 e.1 (List.mem_map_of_mem he))⟩
  case once =>
    show ((rows (expire table now)).map Prod.fst).Nodup
    rw [hnumbers]
    exact SortedMap.nodup_keys _
  case keyed => exact fun e he => hkeyed e (mem_expire he)
  case unsent => exact fun span hspan => absurd hspan List.not_mem_nil
  case live => exact .refl _
  case hooks =>
    intro id e he
    cases he
  case armed => exact fun a ha => absurd ha List.not_mem_nil

theorem Tracked.positive_table (h : Tracked s) : ∀ e ∈ s.table.entries, 0 < e.1 := by
  intro e he
  have hmem : e.2.entry ∈ s.everywhere :=
    List.mem_append_left _ (List.mem_append_right _ (List.mem_map_of_mem he))
  rw [← h.keyed e he]
  exact (h.numbers _ (h.placed.mem_iff.mp hmem)).1

theorem Tracked.step (h : Tracked s) (e : Event H) : Tracked (s.step e) := by
  cases e with
  | begin context sql now => exact h.begin context sql now
  | recordFailure context operation waitedUs code message now =>
      exact h.recordFailure context operation waitedUs code message now
  | assign i target backendPid elapsedUs => exact h.assign i target backendPid elapsedUs
  | armCancel i hook => exact h.armCancel i hook
  | call i c => exact h.call i c
  | complete i status error durationUs => exact h.complete i status error durationUs
  | send i => exact h.send i
  | pull => exact h.pull
  | insert ok => exact h.insert ok
  | cleanup now => exact h.cleanup now
  | clear => exact h.clear
  | restart now => exact .fromConnection h.keyed h.positive_table now

/-- A step that deletes rows, or a transaction that fails. -/
def Event.drops : Event H → Bool
  | .insert ok => !ok
  | .cleanup _ => true
  | .clear => true
  | .restart _ => true
  | _ => false

/-- The batch of the writer can be inserted. -/
theorem Tracked.insertable (h : Tracked s) : (insertTraces s.table s.writer.batch).isSome = true := by
  have hnodup : (s.everywhere.map Prod.fst).Nodup := (h.placed.map Prod.fst).nodup_iff.mpr h.once
  simp only [everywhere, List.map_append] at hnodup
  have hrest := (List.nodup_append.mp (List.nodup_append.mp hnodup).1)
  have hbatch := (List.nodup_append.mp hrest.1).2.1
  refine insertTraces_isSome (fun c hc => ?_) ?_
  · cases htaken : s.table.get c.summary.id with
    | none => rfl
    | some d =>
        have hd := SortedMap.mem_of_get htaken
        refine absurd ?_ (hrest.2.2 c.summary.id ?_ c.summary.id ?_)
        · rfl
        · exact List.mem_append_right _ (List.mem_append_right _ (List.mem_map.mpr ⟨c.entry, List.mem_map_of_mem hc, rfl⟩))
        · exact List.mem_map.mpr ⟨d.entry, List.mem_map.mpr ⟨_, hd, rfl⟩, h.keyed _ hd⟩
  · have hids := (List.nodup_append.mp hbatch).2.1
    rwa [List.map_map] at hids

/-- What runs is nowhere else. -/
theorem Tracked.apart_of_running (h : Tracked s) {id : ℕ} {e : ActiveEntry H} (he : s.active.get id = some e)
    {b : ℕ × Origin} (hb : b ∈ (s.outgoing ++ s.channel ++ s.writer.batch).map CompletedTrace.entry ++ rows s.table) :
    b.1 ≠ id := by
  have hnodup : (s.everywhere.map Prod.fst).Nodup := (h.placed.map Prod.fst).nodup_iff.mpr h.once
  rw [everywhere, List.append_assoc, List.append_assoc, ← List.append_assoc (List.map _ _), List.map_append,
    List.map_append] at hnodup
  have hapart := (List.nodup_append.mp hnodup).2.2
  refine Ne.symm (hapart id ?_ b.1 (List.mem_append_left _ (List.mem_map_of_mem hb)))
  exact List.mem_map.mpr ⟨(id, e.origin), List.mem_map.mpr ⟨(id, e), SortedMap.mem_of_get he, rfl⟩, rfl⟩

/-- Without rows deleted and failures of the database nothing is lost. -/
theorem lost_step (h : Tracked s) {e : Event H} (he : e.drops = false) : (s.step e).lost = s.lost := by
  have hspan : ∀ (i : ℕ) (f : TraceSpan → TraceStore H × TraceSpan), (∀ span, (f span).1.lost = s.lost) →
      (s.onSpan i f).lost = s.lost := by
    intro i f hf
    obtain hsame | ⟨span, -, hstep⟩ := s.onSpan_cases i f
    · rw [hsame]
    · rw [hstep]
      exact hf span
  cases e with
  | begin =>
      simp only [step, TraceStore.begin]
      split <;> rfl
  | recordFailure =>
      simp only [step, TraceStore.recordFailure]
      split <;> rfl
  | assign i target backendPid elapsedUs =>
      refine hspan i _ fun span => ?_
      simp only [TraceStore.assign]
      split <;> rfl
  | armCancel i hook =>
      refine hspan i _ fun span => ?_
      simp only [TraceStore.armCancel]
      split
      · rfl
      · split <;> rfl
  | call i c => exact hspan i _ fun _ => rfl
  | complete i status error durationUs =>
      refine hspan i _ fun span => ?_
      simp only [TraceStore.complete]
      split
      · rfl
      · split <;> rfl
  | send i => exact hspan i _ fun _ => rfl
  | pull =>
      simp only [step, TraceStore.pull]
      split
      · split
        · rfl
        · split
          · split <;> rfl
          · rfl
      · rfl
  | insert ok =>
      obtain rfl : ok = true := by simpa [Event.drops] using he
      simp only [step, TraceStore.insert]
      split
      · obtain ⟨table, htable⟩ := Option.isSome_iff_exists.mp h.insertable
        simp only [if_true, htable]
      · rfl
  | _ => cases he

/-- **A statement can be cancelled while it runs, and not after.** In every run: a hook that is found under a number is
the last one armed for it, and the span of that number has not ended, so that the statement is neither in the table nor
on its way; and what is shown as cancellable runs and has a hook. -/
theorem cancel_in_time (H : Type) (now : ℤ) (ls : List (Event H)) :
    let s := run step (fromConnection H .empty now) ls
    (∀ id hook, s.cancelHook id = some hook →
      lastArmed s.armed id = some hook ∧ (∃ span ∈ s.spans, span.id = id ∧ span.finished = false) ∧
        s.table.get id = none ∧ ∀ c ∈ s.outgoing ++ s.channel ++ s.writer.batch, c.summary.id ≠ id) ∧
      ∀ id e, s.active.get id = some e →
        (e.cancellable = true ↔ e.phase = .running ∧ (s.cancelHook id).isSome = true) := by
  intro s
  have hstart : Tracked (fromConnection H .empty now) :=
    .fromConnection (fun e he => absurd he List.not_mem_nil) (fun e he => absurd he List.not_mem_nil) now
  have h : Tracked s := run_invariant (fun _ e h => h.step e) hstart ls
  refine ⟨fun id hook hcancel => ?_, fun id e he => ?_⟩
  · obtain ⟨e, he, hhook⟩ := Option.bind_eq_some_iff.mp hcancel
    have hmem : id ∈ s.unfinished := h.live.mem_iff.mpr (SortedMap.mem_keys.mpr (by rw [he]; rfl))
    obtain ⟨span, hspan, hid⟩ := List.mem_map.mp hmem
    obtain ⟨hspan, hopen⟩ := List.mem_filter.mp hspan
    refine ⟨(h.hooks id e he).1.symm.trans hhook, ⟨span, hspan, hid, by simpa using hopen⟩, ?_, fun c hc heq => ?_⟩
    · cases hrow : s.table.get id with
      | none => rfl
      | some c =>
          have hin : c.entry ∈ rows s.table := List.mem_map.mpr ⟨(id, c), SortedMap.mem_of_get hrow, rfl⟩
          exact absurd (h.keyed (id, c) (SortedMap.mem_of_get hrow)) (h.apart_of_running he (List.mem_append_right _ hin))
    · exact h.apart_of_running he (List.mem_append_left _ (List.mem_map_of_mem hc)) heq
  · have hhook : s.cancelHook id = e.cancel := by rw [cancelHook, he]; rfl
    rw [hhook, (h.hooks id e he).2, Bool.and_eq_true, decide_eq_true_eq]

end TraceStore

end Havuz.Trace
