import Mathlib
import Havuz.Lib.Run
import Havuz.Text

/-!
# The sample of a traced result

Reference: `ResultCapture` of `havuz-control/src/trace.rs`. The rows of a statement are sampled up to a number
of rows and a number of bytes. `sample` says what is captured of the rows offered, `Arrived` what result sets
the calls make up, and `capture_tracks` that the fields of the capture agree with both.
-/

namespace Havuz.Trace

open Lib

/-- A row: `none` is SQL NULL. -/
abbrev Row := List (Option Text)

def maxResultRows : ℕ := 100

def maxResultBytes : ℕ := 256 * 1024

/-- `u64::saturating_add`. -/
def saturatingAdd (a b : ℕ) : ℕ := min (a + b) (2 ^ 64 - 1)

structure ResultSet where
  columns : List Text := []
  rows : List Row := []
  commandTag : Option Text := none
deriving DecidableEq, Repr

structure ResultCapture where
  /-- Without it columns and rows are dropped as they arrive. -/
  keepRows : Bool := false
  sets : List ResultSet := []
  currentSet : Option ℕ := none
  rowCount : ℕ := 0
  capturedRows : ℕ := 0
  bytes : ℕ := 0
  truncated : Bool := false
  commandTag : Option Text := none
  error : Option (Text × Text) := none
deriving DecidableEq, Repr

/-- The text of a row, in bytes. -/
def rowBytes (row : Row) : ℕ := ((row.filterMap id).map fun v => v.asBytes.length).sum

namespace ResultCapture

def new (keepRows : Bool) : ResultCapture := { keepRows }

def beginResultSet (c : ResultCapture) (columns : List Text) : ResultCapture :=
  if !c.keepRows then c
  else { c with sets := c.sets ++ [{ columns }], currentSet := some c.sets.length }

/-- The sets, and the index of the current one. Where none is open, one is pushed. -/
def openSet (c : ResultCapture) : List ResultSet × ℕ :=
  match c.currentSet with
  | some index => (c.sets, index)
  | none => (c.sets ++ [{}], c.sets.length)

def commandComplete (c : ResultCapture) (tag : Text) (rows : ℕ) : ResultCapture :=
  let c := { c with rowCount := saturatingAdd c.rowCount rows, commandTag := some tag }
  if !c.keepRows then c
  else
    let (sets, index) := c.openSet
    { c with sets := sets.modify index fun s => { s with commandTag := some tag }, currentSet := none }

def recordError (c : ResultCapture) (code message : Text) : ResultCapture := { c with error := some (code, message) }

def pushRow (c : ResultCapture) (row : Row) : ResultCapture :=
  if !c.keepRows then c
  else if maxResultRows ≤ c.capturedRows ∨ maxResultBytes ≤ c.bytes then { c with truncated := true }
  else if maxResultBytes < c.bytes + rowBytes row then { c with truncated := true }
  else
    let (sets, index) := c.openSet
    { c with
      sets := sets.modify index fun s => { s with rows := s.rows ++ [row] }
      currentSet := some index
      bytes := c.bytes + rowBytes row
      capturedRows := c.capturedRows + 1
      truncated := if maxResultRows ≤ c.capturedRows + 1 then true else c.truncated }

end ResultCapture

/-- A call of the family that feeds the trace. -/
inductive Call where
  | beginResultSet (columns : List Text)
  | pushRow (row : Row)
  | commandComplete (tag : Text) (rows : ℕ)
  | recordError (code message : Text)
deriving DecidableEq, Repr

def ResultCapture.call (c : ResultCapture) : Call → ResultCapture
  | .beginResultSet columns => c.beginResultSet columns
  | .pushRow row => c.pushRow row
  | .commandComplete tag rows => c.commandComplete tag rows
  | .recordError code message => c.recordError code message

/-- A capture that keeps rows, after these calls. -/
def capture (calls : List Call) : ResultCapture := run ResultCapture.call (.new true) calls

/-! ## What the calls come to -/

/-- The rows offered. -/
def offered (calls : List Call) : List Row :=
  calls.filterMap fun
    | .pushRow row => some row
    | _ => none

/-- The counts of all completions. -/
def counts (calls : List Call) : List ℕ :=
  calls.filterMap fun
    | .commandComplete _ rows => some rows
    | _ => none

/-- A result set as it arrives: a description, if there is one, rows and a completion. -/
structure Arrival where
  columns : Option (List Text) := none
  rows : List Row := []
  tag : Option Text := none
deriving DecidableEq, Repr

/-- The result sets that are over, and the one that rows arrive in. -/
structure Arrived where
  closed : List Arrival := []
  current : Option Arrival := none
deriving DecidableEq, Repr

namespace Arrived

/-- A description starts a set, a completion ends it; what comes without a description starts one as well. -/
def call (a : Arrived) : Call → Arrived
  | .beginResultSet columns => ⟨a.closed ++ a.current.toList, some { columns := some columns }⟩
  | .pushRow row => { a with current := some { a.current.getD {} with rows := (a.current.getD {}).rows ++ [row] } }
  | .commandComplete tag _ => ⟨a.closed ++ [{ a.current.getD {} with tag := some tag }], none⟩
  | .recordError _ _ => a

def all (a : Arrived) : List Arrival := a.closed ++ a.current.toList

end Arrived

/-- The result sets these calls make up. -/
def arrived (calls : List Call) : Arrived := run Arrived.call {} calls

/-- A captured set is one that arrived, with some of its rows. -/
structure Captured (a : Arrival) (s : ResultSet) : Prop where
  columns : s.columns = a.columns.getD []
  rows : s.rows.Sublist a.rows
  tag : s.commandTag = a.tag

/-- The captured sets are those that arrived, in order; one is left out where only rows arrived in it and none was
captured. -/
inductive Shows : List Arrival → List ResultSet → Prop
  | nil : Shows [] []
  | shown {a : Arrival} {s : ResultSet} {as : List Arrival} {ss : List ResultSet} (hset : Captured a s)
      (hrest : Shows as ss) : Shows (a :: as) (s :: ss)
  | skipped {a : Arrival} {as : List Arrival} {ss : List ResultSet} (hcolumns : a.columns = none) (htag : a.tag = none)
      (hrest : Shows as ss) : Shows (a :: as) ss

theorem Shows.append {as as' : List Arrival} {ss ss' : List ResultSet} (h : Shows as ss) (h' : Shows as' ss') :
    Shows (as ++ as') (ss ++ ss') := by
  induction h with
  | nil => exact h'
  | shown hset _ ih => exact .shown hset ih
  | skipped hcolumns htag _ ih => exact .skipped hcolumns htag ih

/-! ## The sample -/

/-- The text of some rows, in bytes. -/
def size (rows : List Row) : ℕ := (rows.map rowBytes).sum

@[simp] theorem size_append (rows rows' : List Row) : size (rows ++ rows') = size rows + size rows' := by
  simp [size]

@[simp] theorem size_singleton (row : Row) : size [row] = rowBytes row := by
  simp [size]

/-- There is room for one more row. -/
def Room (kept : List Row) (row : Row) : Prop :=
  kept.length < maxResultRows ∧ size kept < maxResultBytes ∧ size kept + rowBytes row ≤ maxResultBytes

instance (kept : List Row) (row : Row) : Decidable (Room kept row) := inferInstanceAs (Decidable (_ ∧ _ ∧ _))

def sampleStep (kept : List Row) (row : Row) : List Row := if Room kept row then kept ++ [row] else kept

/-- What is captured of the rows offered. -/
def sample (rows : List Row) : List Row := run sampleStep [] rows

theorem sample_snoc (rows : List Row) (row : Row) : sample (rows ++ [row]) = sampleStep (sample rows) row :=
  run_append sampleStep [] rows [row]

theorem run_sampleStep_sublist (kept rows : List Row) : (run sampleStep kept rows).Sublist (kept ++ rows) := by
  induction rows generalizing kept with
  | nil => rw [List.append_nil]; exact List.Sublist.refl kept
  | cons row rows ih =>
      rw [run_cons, sampleStep]
      split
      · simpa using ih (kept ++ [row])
      · exact (ih kept).trans ((List.Sublist.refl kept).append (List.sublist_cons_self row rows))

theorem sample_sublist (rows : List Row) : (sample rows).Sublist rows := run_sampleStep_sublist [] rows

theorem prefix_run_sampleStep (kept rows : List Row) : kept <+: run sampleStep kept rows := by
  induction rows generalizing kept with
  | nil => exact List.prefix_refl kept
  | cons row rows ih =>
      rw [run_cons, sampleStep]
      split
      · exact (List.prefix_append kept [row]).trans (ih (kept ++ [row]))
      · exact ih kept

/-- Rows there is no room for leave no trace. -/
theorem run_sampleStep_of_full {kept rows : List Row} (h : ∀ row ∈ rows, ¬ Room kept row) :
    run sampleStep kept rows = kept := by
  induction rows with
  | nil => rfl
  | cons row rows ih =>
      obtain ⟨hrow, hrest⟩ := List.forall_mem_cons.mp h
      rw [run_cons, sampleStep, if_neg hrow, ih hrest]

/-- Within the limits. -/
def Bounded (kept : List Row) : Prop := kept.length ≤ maxResultRows ∧ size kept ≤ maxResultBytes

theorem sample_bounded (rows : List Row) : Bounded (sample rows) := by
  refine run_invariant (fun kept row h => ?_) ⟨Nat.zero_le maxResultRows, Nat.zero_le maxResultBytes⟩ rows
  rw [sampleStep]
  split
  case isTrue hroom =>
    obtain ⟨hlength, -, hsize⟩ := hroom
    rw [Bounded, List.length_append, List.length_singleton, size_append, size_singleton]
    exact ⟨hlength, hsize⟩
  case isFalse => exact h

/-- Everything is captured as long as there is room. -/
theorem sample_eq_self_iff {rows : List Row} :
    sample rows = rows ↔ ∀ before row after, rows = before ++ row :: after → Room before row := by
  induction rows using List.reverseRecOn with
  | nil => simp [sample]
  | append_singleton rows last ih =>
      rw [sample_snoc]
      constructor
      · intro h
        have hlength := (sample_sublist rows).length_le
        have hroom : Room (sample rows) last := by
          by_contra hfull
          rw [sampleStep, if_neg hfull] at h
          rw [h, List.length_append, List.length_singleton] at hlength
          omega
        rw [sampleStep, if_pos hroom] at h
        have hall := List.append_cancel_right h
        intro before row after heq
        obtain rfl | ⟨after', x, rfl⟩ := List.eq_nil_or_concat after
        · obtain ⟨rfl, hlast⟩ := List.append_inj' heq rfl
          rw [← List.singleton_inj.mp hlast]
          rwa [hall] at hroom
        · have hshorter : rows ++ [last] = (before ++ row :: after') ++ [x] := by
            rw [heq]
            simp
          exact ih.mp hall before row after' (List.append_inj_left' hshorter rfl)
      · intro h
        have hall : sample rows = rows := ih.mpr fun before row after heq =>
          h before row (after ++ [last]) (by rw [heq, List.append_assoc]; rfl)
        rw [sampleStep, hall, if_pos (h rows last [] rfl)]

/-- No row fits that comes after the first one that does not fit in what is left of the bytes. -/
def NoLaterFits (rows : List Row) : Prop :=
  ∀ before row after, rows = before ++ row :: after → before.length < maxResultRows → size before < maxResultBytes →
    maxResultBytes < size before + rowBytes row → ∀ later ∈ after, maxResultBytes < size before + rowBytes later

/-- From where everything is captured on, the sample is a prefix if no later row fits. -/
theorem run_sampleStep_prefix {kept rows : List Row} (h : NoLaterFits (kept ++ rows)) :
    run sampleStep kept rows <+: kept ++ rows := by
  induction rows generalizing kept with
  | nil => rw [List.append_nil]; exact List.prefix_refl kept
  | cons row rows ih =>
      rw [run_cons, sampleStep]
      split
      case isTrue =>
        have happend : kept ++ row :: rows = kept ++ [row] ++ rows := by simp
        rw [happend] at h ⊢
        exact ih h
      case isFalse hfull =>
        have hrest : ∀ later ∈ rows, ¬ Room kept later := by
          intro later hlater hroom
          -- the limits are not reached, so it was the size of `row`
          have hsize : maxResultBytes < size kept + rowBytes row := by
            by_contra hle
            exact hfull ⟨hroom.1, hroom.2.1, by omega⟩
          exact absurd hroom.2.2 (Nat.not_le.mpr (h kept row rows rfl hroom.1 hroom.2.1 hsize later hlater))
        rw [run_sampleStep_of_full hrest]
        exact List.prefix_append kept _

/-- The sample is a prefix exactly where nothing fits after the first row that was too big. -/
theorem sample_prefix_iff (rows : List Row) : sample rows <+: rows ↔ NoLaterFits rows := by
  constructor
  · intro h before row after heq hlength hsize hbig later hlater
    by_contra hfits
    have hroom : Room before later := ⟨hlength, hsize, by omega⟩
    have hfull : ¬ Room before row := fun hroom => absurd hroom.2.2 (Nat.not_le.mpr hbig)
    -- the first row after it that there is room for
    obtain ⟨next, hnext⟩ := Option.isSome_iff_exists.mp
      (List.find?_isSome.mpr ⟨later, hlater, decide_eq_true hroom⟩ : (after.find? fun r => Room before r).isSome)
    obtain ⟨hfirst, between, rest, hafter, hnone⟩ := List.find?_eq_some_iff_append.mp hnext
    have hall : sample before = before := by
      refine sample_eq_self_iff.mpr fun before' row' after' heq' => ?_
      rw [heq', size_append] at hsize
      rw [heq', List.length_append, List.length_cons] at hlength
      have hcons : size (row' :: after') = rowBytes row' + size after' := by simp [size]
      exact ⟨by omega, by omega, by omega⟩
    have hskipped : run sampleStep before (row :: between) = before :=
      run_sampleStep_of_full (List.forall_mem_cons.mpr ⟨hfull, fun r hr => by simpa using hnone r hr⟩)
    have hsample : sample rows = run sampleStep (before ++ [next]) rest := by
      rw [heq, hafter, sample, run_append, ← List.cons_append, run_append, run_cons]
      show run sampleStep (sampleStep (run sampleStep (sample before) (row :: between)) next) rest = _
      rw [hall, hskipped, sampleStep, if_pos (of_decide_eq_true hfirst)]
    have hstart := (prefix_run_sampleStep (before ++ [next]) rest).trans (hsample ▸ h)
    rw [heq, List.prefix_append_right_inj, List.cons_prefix_cons] at hstart
    exact hfull (hstart.1 ▸ of_decide_eq_true hfirst)
  · exact fun h => run_sampleStep_prefix h

/-! ## The fields of a capture -/

theorem modify_last {α : Type*} (l : List α) (a : α) (f : α → α) : (l ++ [a]).modify l.length f = l ++ [f a] := by
  rw [List.modify_eq_set_getElem?]
  simp

/-- The rows captured, over all sets. -/
def ResultCapture.captured (c : ResultCapture) : List Row := c.sets.flatMap ResultSet.rows

/-- What the fields of a capture say about the calls so far. -/
structure Tracks (calls : List Call) (c : ResultCapture) : Prop where
  keepRows : c.keepRows = true
  captured : c.captured = sample (offered calls)
  capturedRows : c.capturedRows = (sample (offered calls)).length
  bytes : c.bytes = size (sample (offered calls))
  truncated : c.truncated = true ↔
    (sample (offered calls)).length < (offered calls).length ∨ (sample (offered calls)).length = maxResultRows
  rowCount : c.rowCount = min (counts calls).sum (2 ^ 64 - 1)
  /-- The sets that are over are there, and the current one is the last. -/
  sets : ∃ ss, Shows (arrived calls).closed ss ∧
    ((c.currentSet = none ∧ c.sets = ss ∧ ∀ a ∈ (arrived calls).current, a.columns = none ∧ a.tag = none) ∨
      ∃ a s, (arrived calls).current = some a ∧ a.tag = none ∧ Captured a s ∧ c.currentSet = some ss.length ∧
        c.sets = ss ++ [s])

theorem tracks_new : Tracks [] (.new true) where
  keepRows := rfl
  captured := rfl
  capturedRows := rfl
  bytes := rfl
  truncated := by decide
  rowCount := rfl
  sets := ⟨[], .nil, .inl ⟨rfl, rfl, nofun⟩⟩

theorem arrived_snoc (calls : List Call) (call : Call) : arrived (calls ++ [call]) = (arrived calls).call call :=
  run_append Arrived.call {} calls [call]

/-- All that arrived is shown. -/
theorem Tracks.shows {calls : List Call} {c : ResultCapture} (h : Tracks calls c) :
    Shows (arrived calls).all c.sets := by
  obtain ⟨ss, hshows, ⟨-, hsets, hcurrent⟩ | ⟨a, s, ha, -, hset, -, hsets⟩⟩ := h.sets
  · rw [hsets, Arrived.all]
    cases ha : (arrived calls).current with
    | none => simpa using hshows
    | some a =>
        obtain ⟨hcolumns, htag⟩ := hcurrent a ha
        simpa using hshows.append (.skipped hcolumns htag .nil)
  · rw [hsets, Arrived.all, ha]
    exact hshows.append (.shown hset .nil)

/-- The set that a row or a tag goes to: the current one, or a new one. -/
theorem Tracks.openSet {calls : List Call} {c : ResultCapture} (h : Tracks calls c) :
    ∃ ss s, Shows (arrived calls).closed ss ∧ c.openSet = (ss ++ [s], ss.length) ∧
      Captured ((arrived calls).current.getD {}) s ∧ c.captured = (ss ++ [s]).flatMap ResultSet.rows := by
  obtain ⟨ss, hshows, ⟨hnone, hsets, hcurrent⟩ | ⟨a, s, ha, -, hset, hindex, hsets⟩⟩ := h.sets
  · refine ⟨ss, {}, hshows, by rw [ResultCapture.openSet, hnone, hsets], ?_, ?_⟩
    · cases ha : (arrived calls).current with
      | none => exact ⟨rfl, List.Sublist.refl [], rfl⟩
      | some a =>
          obtain ⟨hcolumns, htag⟩ := hcurrent a ha
          exact ⟨by rw [Option.getD_some, hcolumns]; rfl, List.nil_sublist _, htag.symm⟩
    · rw [ResultCapture.captured, hsets, List.flatMap_append]
      simp
  · exact ⟨ss, s, hshows, by rw [ResultCapture.openSet, hindex, hsets], by rw [ha]; exact hset,
      by rw [ResultCapture.captured, hsets]⟩

theorem Tracks.beginResultSet {calls : List Call} {c : ResultCapture} (h : Tracks calls c) (columns : List Text) :
    Tracks (calls ++ [.beginResultSet columns]) (c.beginResultSet columns) := by
  have hoffered : offered (calls ++ [.beginResultSet columns]) = offered calls := by simp [offered]
  have hcounts : counts (calls ++ [.beginResultSet columns]) = counts calls := by simp [counts]
  have hbegin : c.beginResultSet columns =
      { c with sets := c.sets ++ [{ columns }], currentSet := some c.sets.length } := by
    rw [ResultCapture.beginResultSet, h.keepRows]
    rfl
  rw [hbegin]
  constructor
  case keepRows => exact h.keepRows
  case captured =>
    rw [hoffered, ← h.captured, ResultCapture.captured, List.flatMap_append]
    simp [ResultCapture.captured]
  case capturedRows => rw [hoffered]; exact h.capturedRows
  case bytes => rw [hoffered]; exact h.bytes
  case truncated => rw [hoffered]; exact h.truncated
  case rowCount => rw [hcounts]; exact h.rowCount
  case sets =>
    refine ⟨c.sets, ?_, .inr ⟨{ columns := some columns }, { columns }, ?_, rfl, ⟨rfl, List.nil_sublist _, rfl⟩, rfl, rfl⟩⟩
    · rw [arrived_snoc]
      exact h.shows
    · rw [arrived_snoc]
      rfl

theorem saturatingAdd_min (a b : ℕ) : saturatingAdd (min a (2 ^ 64 - 1)) b = min (a + b) (2 ^ 64 - 1) := by
  rw [saturatingAdd]
  omega

theorem Tracks.commandComplete {calls : List Call} {c : ResultCapture} (h : Tracks calls c) (tag : Text) (rows : ℕ) :
    Tracks (calls ++ [.commandComplete tag rows]) (c.commandComplete tag rows) := by
  have hoffered : offered (calls ++ [.commandComplete tag rows]) = offered calls := by simp [offered]
  have hcounts : counts (calls ++ [.commandComplete tag rows]) = counts calls ++ [rows] := by simp [counts]
  obtain ⟨ss, s, hshows, hopen, hset, hcaptured⟩ := h.openSet
  have hcomplete : c.commandComplete tag rows =
      { c with
        rowCount := saturatingAdd c.rowCount rows
        commandTag := some tag
        sets := ss ++ [{ s with commandTag := some tag }]
        currentSet := none } := by
    have hopen' : { c with rowCount := saturatingAdd c.rowCount rows, commandTag := some tag }.openSet =
        (ss ++ [s], ss.length) := hopen
    rw [ResultCapture.commandComplete, hopen', if_neg (by simp [h.keepRows])]
    simp only [modify_last]
  rw [hcomplete]
  constructor
  case keepRows => exact h.keepRows
  case captured =>
    rw [hoffered, ← h.captured, hcaptured, ResultCapture.captured, List.flatMap_append, List.flatMap_append]
    rfl
  case capturedRows => rw [hoffered]; exact h.capturedRows
  case bytes => rw [hoffered]; exact h.bytes
  case truncated => rw [hoffered]; exact h.truncated
  case rowCount =>
    rw [hcounts, List.sum_append, List.sum_singleton, ← saturatingAdd_min, ← h.rowCount]
  case sets =>
    refine ⟨_, ?_, .inl ⟨rfl, rfl, ?_⟩⟩
    · rw [arrived_snoc]
      exact hshows.append (.shown ⟨hset.columns, hset.rows, rfl⟩ .nil)
    · rw [arrived_snoc]
      exact nofun

theorem Tracks.recordError {calls : List Call} {c : ResultCapture} (h : Tracks calls c) (code message : Text) :
    Tracks (calls ++ [.recordError code message]) (c.recordError code message) := by
  have hoffered : offered (calls ++ [.recordError code message]) = offered calls := by simp [offered]
  have hcounts : counts (calls ++ [.recordError code message]) = counts calls := by simp [counts]
  have harrived : arrived (calls ++ [.recordError code message]) = arrived calls := arrived_snoc _ _
  exact ⟨h.keepRows, hoffered ▸ h.captured, hoffered ▸ h.capturedRows, hoffered ▸ h.bytes, hoffered ▸ h.truncated,
    hcounts ▸ h.rowCount, harrived ▸ h.sets⟩

theorem Tracks.pushRow {calls : List Call} {c : ResultCapture} (h : Tracks calls c) (row : Row) :
    Tracks (calls ++ [.pushRow row]) (c.pushRow row) := by
  have hoffered : offered (calls ++ [.pushRow row]) = offered calls ++ [row] := by simp [offered]
  have hcounts : counts (calls ++ [.pushRow row]) = counts calls := by simp [counts]
  have hlength := (sample_sublist (offered calls)).length_le
  have hbounded := sample_bounded (offered calls)
  by_cases hroom : Room (sample (offered calls)) row
  · have hsample : sample (offered calls ++ [row]) = sample (offered calls) ++ [row] := by
      rw [sample_snoc, sampleStep, if_pos hroom]
    obtain ⟨ss, s, hshows, hopen, hset, hcaptured⟩ := h.openSet
    have hpush : c.pushRow row =
        { c with
          sets := ss ++ [{ s with rows := s.rows ++ [row] }]
          currentSet := some ss.length
          bytes := c.bytes + rowBytes row
          capturedRows := c.capturedRows + 1
          truncated := if maxResultRows ≤ c.capturedRows + 1 then true else c.truncated } := by
      obtain ⟨hrows, hsize, hfits⟩ := hroom
      rw [← h.capturedRows] at hrows
      rw [← h.bytes] at hsize hfits
      rw [ResultCapture.pushRow, h.keepRows, if_neg (by simp), if_neg (by omega), if_neg (by omega), hopen]
      simp only [modify_last]
    rw [hpush]
    constructor
    case keepRows => exact h.keepRows
    case captured =>
      rw [hoffered, hsample, ← h.captured, hcaptured, ResultCapture.captured, List.flatMap_append, List.flatMap_append]
      simp
    case capturedRows => rw [hoffered, hsample, List.length_append, List.length_singleton, ← h.capturedRows]
    case bytes => rw [hoffered, hsample, size_append, size_singleton, ← h.bytes]
    case truncated =>
      have htruncated := h.truncated
      have hrows := hroom.1
      rw [hoffered, hsample, List.length_append, List.length_append, List.length_singleton]
      dsimp only
      rw [h.capturedRows]
      split_ifs with hfull
      · simp only [true_iff]
        omega
      · rw [htruncated]
        omega
    case rowCount => rw [hcounts]; exact h.rowCount
    case sets =>
      refine ⟨ss, ?_, .inr ⟨{ (arrived calls).current.getD {} with
        rows := ((arrived calls).current.getD {}).rows ++ [row] }, { s with rows := s.rows ++ [row] }, ?_, ?_,
          ⟨hset.columns, ?_, hset.tag⟩, rfl, rfl⟩⟩
      · rw [arrived_snoc]
        exact hshows
      · rw [arrived_snoc]
        rfl
      · obtain ⟨-, -, ⟨-, -, hcurrent⟩ | ⟨a, -, ha, htag, -⟩⟩ := h.sets
        · cases ha : (arrived calls).current with
          | none => rfl
          | some a => exact (hcurrent a ha).2
        · rw [ha]
          exact htag
      · exact hset.rows.append (List.Sublist.refl [row])
  · have hsample : sample (offered calls ++ [row]) = sample (offered calls) := by
      rw [sample_snoc, sampleStep, if_neg hroom]
    have hpush : c.pushRow row = { c with truncated := true } := by
      rw [Room, ← h.capturedRows, ← h.bytes] at hroom
      rw [ResultCapture.pushRow, h.keepRows, if_neg (by simp)]
      by_cases hfull : maxResultRows ≤ c.capturedRows ∨ maxResultBytes ≤ c.bytes
      · rw [if_pos hfull]
      · rw [if_neg hfull, if_pos (by omega)]
    rw [hpush]
    constructor
    case keepRows => exact h.keepRows
    case captured => rw [hoffered, hsample]; exact h.captured
    case capturedRows => rw [hoffered, hsample]; exact h.capturedRows
    case bytes => rw [hoffered, hsample]; exact h.bytes
    case truncated =>
      rw [hoffered, hsample, List.length_append, List.length_singleton]
      exact iff_of_true rfl (.inl (by omega))
    case rowCount => rw [hcounts]; exact h.rowCount
    case sets =>
      rw [arrived_snoc]
      obtain ⟨ss, hshows, ⟨hnone, hsets, hcurrent⟩ | ⟨a, s, ha, htag, hset, hindex, hsets⟩⟩ := h.sets
      · refine ⟨ss, hshows, .inl ⟨hnone, hsets, fun a ha => ?_⟩⟩
        obtain rfl := Option.some.inj ha
        cases hold : (arrived calls).current with
        | none => exact ⟨rfl, rfl⟩
        | some a => exact hcurrent a hold
      · refine ⟨ss, hshows, .inr ⟨{ a with rows := a.rows ++ [row] }, s, ?_, htag,
          ⟨hset.columns, hset.rows.trans (List.sublist_append_left _ _), hset.tag⟩, hindex, hsets⟩⟩
        rw [Arrived.call, ha]
        rfl

theorem capture_tracks (calls : List Call) : Tracks calls (capture calls) := by
  refine run_history (I := Tracks) (fun calls c call h => ?_) tracks_new calls
  cases call with
  | beginResultSet columns => exact h.beginResultSet columns
  | pushRow row => exact h.pushRow row
  | commandComplete tag rows => exact h.commandComplete tag rows
  | recordError code message => exact h.recordError code message

/-! ## An honest prefix -/

/-- The sample is a prefix of what was offered, within the limits, and says whether something is missing; rows and
tags are in the set they arrived in; and the counts are added up. -/
structure Honest (calls : List Call) : Prop where
  isPrefix : (capture calls).captured <+: offered calls
  atMost : (capture calls).captured.length ≤ maxResultRows
  bytes : size (capture calls).captured ≤ maxResultBytes
  truncated : (capture calls).truncated = true ↔ (capture calls).captured.length < (offered calls).length
  placed : Shows (arrived calls).all (capture calls).sets
  rowCount : (capture calls).rowCount = (counts calls).sum

/-- All rows offered are captured, and they are as many as can be. -/
def ExactlyFull (rows : List Row) : Prop :=
  rows.length = maxResultRows ∧ size rows ≤ maxResultBytes ∧ size rows.dropLast < maxResultBytes

theorem exactlyFull_iff (rows : List Row) : ExactlyFull rows ↔ sample rows = rows ∧ rows.length = maxResultRows := by
  rw [sample_eq_self_iff]
  constructor
  · rintro ⟨hlength, hsize, hlast⟩
    refine ⟨fun before row after heq => ?_, hlength⟩
    have hcons : size (row :: after) = rowBytes row + size after := by simp [size]
    rw [heq, List.dropLast_append_of_ne_nil (List.cons_ne_nil row after), size_append] at hlast
    rw [heq, size_append] at hsize
    rw [heq, List.length_append, List.length_cons] at hlength
    exact ⟨by omega, by omega, by omega⟩
  · rintro ⟨hroom, hlength⟩
    have hne : rows ≠ [] := by
      rintro rfl
      cases hlength
    have hlast := hroom rows.dropLast (rows.getLast hne) [] (List.dropLast_append_getLast hne).symm
    refine ⟨hlength, ?_, hlast.2.1⟩
    have hsize := hlast.2.2
    rwa [← size_singleton, ← size_append, List.dropLast_append_getLast] at hsize

/-- **When a sample is honest**: no row fits that comes after one that was too big, the rows offered are not as many
as are captured at most, and the counts can be added up. -/
theorem honest_sample_iff (calls : List Call) :
    Honest calls ↔ NoLaterFits (offered calls) ∧ ¬ ExactlyFull (offered calls) ∧ (counts calls).sum < 2 ^ 64 := by
  have htracks := capture_tracks calls
  have hsub := sample_sublist (offered calls)
  have hlength := hsub.length_le
  rw [← sample_prefix_iff, exactlyFull_iff]
  constructor
  · intro h
    refine ⟨htracks.captured ▸ h.isPrefix, ?_, ?_⟩
    · rintro ⟨hall, hfull⟩
      have hmissing := h.truncated.mp (htracks.truncated.mpr (.inr (by rw [hall, hfull])))
      rw [htracks.captured, hall] at hmissing
      omega
    · have hcount := h.rowCount
      rw [htracks.rowCount] at hcount
      omega
  · rintro ⟨hstart, hfull, hcount⟩
    obtain ⟨hrows, hbytes⟩ := sample_bounded (offered calls)
    refine ⟨htracks.captured ▸ hstart, htracks.captured ▸ hrows, htracks.captured ▸ hbytes, ?_, htracks.shows, ?_⟩
    · rw [htracks.truncated, htracks.captured]
      constructor
      · rintro (hmissing | hhundred)
        · exact hmissing
        · -- as many as there can be, and not all of them
          by_contra hall
          have heq := hsub.eq_of_length_le (by omega)
          exact hfull ⟨heq, by rw [← heq, hhundred]⟩
      · exact .inl
    · rw [htracks.rowCount]
      omega

theorem rowBytes_replicate (n : ℕ) : rowBytes [some (List.replicate n 'x')] = n := by
  have hone : (Text.asBytes (List.replicate n 'x')).length = n := by
    induction n with
    | zero => rfl
    | succ n ih =>
        rw [Text.asBytes] at ih ⊢
        rw [List.replicate_succ, List.flatMap_cons, List.length_append, ih, Nat.add_comm]
        rfl
  simp [rowBytes, hone]

/-- A hundred rows are captured, none is missing, and the sample is said to be truncated; an empty row is captured
after one that was left out. -/
theorem not_honest_sample :
    ¬ Honest (List.replicate 100 (.pushRow [])) ∧
      ¬ Honest [.pushRow [some (List.replicate (maxResultBytes + 1) 'x')], .pushRow []] := by
  constructor
  · intro h
    exact absurd (h.truncated.mp (by decide +kernel)) (by decide +kernel)
  · intro h
    have hstart := h.isPrefix
    rw [(capture_tracks _).captured, sample_prefix_iff] at hstart
    have hlater := hstart [] _ [[]] rfl (by decide) (by decide)
      (by rw [rowBytes_replicate]; exact Nat.lt_add_of_pos_left (by decide)) [] List.mem_cons_self
    exact absurd hlater (by decide)

end Havuz.Trace
