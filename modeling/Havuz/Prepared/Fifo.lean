import Havuz.Lib.Fifo
import Havuz.Prepared

/-!
# The backend cache as two tables

Reference: `BackendStatements` of `havuz-pg/src/prepared.rs`. The structure of that name carries as a field that its
queue lists its set. Here are the set and the queue on their own, with the operations as the source has them:
`tables_run` says that they are that structure, and `bounded_fifo` what they are after any operations.
-/

namespace Havuz.BackendStatements

open Lib

/-- The set and the queue. -/
structure Tables where
  present : Finset Bytes := ∅
  /-- Insertion order, for eviction once the cache is full. -/
  order : List Bytes := []
deriving DecidableEq

namespace Tables

def has (t : Tables) (name : Bytes) : Bool := name ∈ t.present

/-- The oldest entry of a full cache goes. -/
def evict (t : Tables) : Tables × Option Bytes :=
  if maxStatementsPerBackend ≤ t.present.card then
    match t.order with
    | old :: rest => (⟨t.present.erase old, rest⟩, some old)
    | [] => (t, none)
  else (t, none)

/-- Record a statement, returning the name that had to be evicted to make room. -/
def insert (t : Tables) (name : Bytes) : Tables × Option Bytes :=
  if name ∈ t.present then (t, none)
  else
    let (t, evicted) := t.evict
    (⟨Insert.insert name t.present, t.order ++ [name]⟩, evicted)

def remove (t : Tables) (name : Bytes) : Tables :=
  if name ∈ t.present then ⟨t.present.erase name, t.order.filter (· ≠ name)⟩ else t

/-- Called after a reset, which deallocates everything server-side. -/
def clear : Tables := {}

/-- One call, with what it returns. -/
def call (t : Tables) : Fifo.Op Bytes → Tables × Option Bytes
  | .insert name => t.insert name
  | .remove name => (t.remove name, none)
  | .clear => (clear, none)

/-- What a call does to the names, newest first, going by its argument and its result alone. -/
def events (t : Tables) : Fifo.Op Bytes → List (Fifo.Event Bytes)
  | .insert name => (if t.has name then [] else [.came name]) ++ (t.insert name).2.toList.map .left
  | .remove name => [.left name]
  | .clear => [.emptied]

/-- A call on the tables, with the history so far. -/
def step (s : Tables × List (Fifo.Event Bytes)) (op : Fifo.Op Bytes) : Tables × List (Fifo.Event Bytes) :=
  ((s.1.call op).1, s.1.events op ++ s.2)

/-- The tables after these calls, and their history. -/
def after (ops : List (Fifo.Op Bytes)) : Tables × List (Fifo.Event Bytes) := run step ({}, []) ops

end Tables

/-! ## The structure with its invariant -/

def tables (b : BackendStatements) : Tables := ⟨b.present, b.order⟩

/-- The result of one call, where the names in `present` and `order` are the same ones. -/
def call (b : BackendStatements) : Fifo.Op Bytes → BackendStatements
  | .insert name => (b.insert name).1
  | .remove name => b.remove name
  | .clear => clear

theorem card_present (b : BackendStatements) : b.present.card = b.order.length := by
  have hset : b.present = b.order.toFinset := Finset.ext fun n => by rw [List.mem_toFinset, b.listed]
  rw [hset, List.toFinset_card_of_nodup b.nodup]

/-! ### What an insertion does -/

theorem insert_of_mem {b : BackendStatements} {name : Bytes} (h : name ∈ b.present) : b.insert name = (b, none) :=
  dif_pos h

theorem insert_of_room {b : BackendStatements} {name : Bytes} (h : name ∉ b.present)
    (hroom : b.present.card < maxStatementsPerBackend) : b.insert name = (b.push name h, none) := by
  rw [insert, dif_neg h, if_neg (by omega)]

theorem insert_of_full {b : BackendStatements} {name : Bytes} (h : name ∉ b.present)
    (hfull : maxStatementsPerBackend ≤ b.present.card) :
    ∃ old rest, ∃ ho : b.order = old :: rest,
      b.insert name = ((b.evictFrom ho).push name fun hn => h (Finset.mem_of_mem_erase hn), some old) := by
  rw [insert, dif_neg h, if_pos hfull]
  split
  case h_1 old rest ho => exact ⟨old, rest, ho, rfl⟩
  case h_2 ho =>
    rw [card_present, ho] at hfull
    exact absurd hfull (by decide)

theorem tables_insert (b : BackendStatements) (name : Bytes) :
    b.tables.insert name = ((b.insert name).1.tables, (b.insert name).2) := by
  by_cases hmem : name ∈ b.present
  · rw [insert_of_mem hmem, Tables.insert, if_pos (show name ∈ b.tables.present from hmem)]
  · rw [Tables.insert, if_neg (show name ∉ b.tables.present from hmem), Tables.evict]
    by_cases hfull : maxStatementsPerBackend ≤ b.present.card
    · obtain ⟨old, rest, ho, hinsert⟩ := insert_of_full hmem hfull
      have horder : b.tables.order = old :: rest := ho
      rw [hinsert, if_pos (show maxStatementsPerBackend ≤ b.tables.present.card from hfull), horder]
      rfl
    · rw [insert_of_room hmem (Nat.not_le.mp hfull),
        if_neg (show ¬ maxStatementsPerBackend ≤ b.tables.present.card from hfull)]
      rfl

theorem tables_remove (b : BackendStatements) (name : Bytes) : b.tables.remove name = (b.remove name).tables := by
  rw [Tables.remove]
  split
  case isTrue => rfl
  case isFalse hmem =>
    -- a name that is not there is not in the queue either
    have hpresent : b.present.erase name = b.present := Finset.erase_eq_of_notMem hmem
    have horder : b.order.filter (· ≠ name) = b.order := List.filter_eq_self.mpr fun n hn => by
      rw [decide_eq_true_eq]
      rintro rfl
      exact hmem ((b.listed n).mp hn)
    show b.tables = Tables.mk (b.present.erase name) (b.order.filter (· ≠ name))
    rw [hpresent, horder]
    rfl

theorem tables_call (b : BackendStatements) (op : Fifo.Op Bytes) : (b.tables.call op).1 = (b.call op).tables := by
  cases op with
  | insert name => rw [Tables.call, tables_insert]; rfl
  | remove name => exact tables_remove b name
  | clear => rfl

/-- The structure goes the way of the two tables. -/
theorem tables_run (ops : List (Fifo.Op Bytes)) : (Tables.after ops).1 = (run call {} ops).tables := by
  suffices h : ∀ (b : BackendStatements) log, (run Tables.step (b.tables, log) ops).1 = (run call b ops).tables from
    h {} []
  intro b log
  induction ops generalizing b log with
  | nil => rfl
  | cons op ops ih =>
      rw [run_cons, run_cons, Tables.step, tables_call, ih]

/-! ## A bounded first-in first-out set -/

/-- What an insertion does to the queue. -/
theorem insert_order (b : BackendStatements) (name : Bytes) :
    Fifo.insert maxStatementsPerBackend b.order name = ((b.insert name).1.order, (b.insert name).2) := by
  rw [Fifo.insert, ← card_present]
  by_cases hmem : name ∈ b.present
  · rw [insert_of_mem hmem, if_pos ((b.listed name).mpr hmem)]
  · rw [if_neg fun hn => hmem ((b.listed name).mp hn)]
    by_cases hfull : maxStatementsPerBackend ≤ b.present.card
    · obtain ⟨old, rest, ho, hinsert⟩ := insert_of_full hmem hfull
      rw [hinsert, if_pos hfull, ho]
      rfl
    · rw [insert_of_room hmem (Nat.not_le.mp hfull), if_neg hfull]
      rfl

/-- The tables are those of a cache whose queue is this one, and the logs are the same. -/
structure Refines (t : Tables × List (Fifo.Event Bytes)) (s : Fifo.State Bytes) : Prop where
  tables : ∃ b : BackendStatements, t.1 = b.tables
  order : t.1.order = s.queue
  log : t.2 = s.log

theorem Refines.step {t : Tables × List (Fifo.Event Bytes)} {s : Fifo.State Bytes} (h : Refines t s)
    (op : Fifo.Op Bytes) : Refines (Tables.step t op) (Fifo.step maxStatementsPerBackend s op) := by
  obtain ⟨tables, log⟩ := t
  obtain ⟨queue, log'⟩ := s
  obtain ⟨⟨b, rfl⟩, rfl, rfl⟩ := h
  refine ⟨⟨b.call op, tables_call b op⟩, ?_, ?_⟩
  · show (b.tables.call op).1.order = _
    rw [tables_call]
    cases op with
    | insert name =>
        show (b.insert name).1.order = (Fifo.insert maxStatementsPerBackend b.order name).1
        rw [insert_order]
    | remove name => rfl
    | clear => rfl
  · cases op with
    | insert name =>
        have hhas : b.tables.has name = decide (name ∈ b.order) := decide_eq_decide.mpr (b.listed name).symm
        show Tables.events b.tables (.insert name) ++ _ =
          _ ++ (Fifo.insert maxStatementsPerBackend b.order name).2.toList.map _ ++ _
        rw [Tables.events, tables_insert, insert_order, hhas]
        have hqueue : b.tables.order = b.order := rfl
        by_cases hmem : name ∈ b.order
        · simp [hmem, hqueue]
        · simp [hmem, hqueue]
    | remove name => rfl
    | clear => rfl

/-- **The backend cache is a bounded first-in first-out set.** -/
theorem bounded_fifo (ops : List (Fifo.Op Bytes)) :
    let t := (Tables.after ops).1
    let history := (Tables.after ops).2
    (t.order.Nodup ∧ (∀ n, n ∈ t.order ↔ n ∈ t.present) ∧
        t.order.Pairwise fun a b => Fifo.stamp history a < Fifo.stamp history b) ∧
      (t.present.card ≤ maxStatementsPerBackend ∧ t.order.length ≤ maxStatementsPerBackend) ∧
      (∀ n, t.has n = true ↔ Fifo.Inside history n) ∧
      (∀ n ∈ t.present, t.insert n = (t, none)) ∧
      (∀ n ∉ t.present, t.present.card < maxStatementsPerBackend →
        t.insert n = (⟨Insert.insert n t.present, t.order ++ [n]⟩, none)) ∧
      ∀ n ∉ t.present, t.present.card = maxStatementsPerBackend →
        ∃ old rest, t.order = old :: rest ∧
          t.insert n = (⟨Insert.insert n (t.present.erase old), rest ++ [n]⟩, some old) := by
  intro t history
  have hrefines : Refines (Tables.after ops) (run (Fifo.step maxStatementsPerBackend) ⟨[], []⟩ ops) := by
    suffices h : ∀ t s, Refines t s →
        Refines (run Tables.step t ops) (run (Fifo.step maxStatementsPerBackend) s ops) from
      h _ _ ⟨⟨{}, rfl⟩, rfl, rfl⟩
    intro t s h
    induction ops generalizing t s with
    | nil => exact h
    | cons op ops ih => exact ih _ _ (h.step op)
  have hkept := @Fifo.run_kept Bytes _ maxStatementsPerBackend (by decide) ops
  obtain ⟨⟨b, hb⟩, horder, hlog⟩ := hrefines
  have hlisted : ∀ n, n ∈ t.order ↔ n ∈ t.present := fun n => by
    show n ∈ (Tables.after ops).1.order ↔ n ∈ (Tables.after ops).1.present
    rw [hb]
    exact b.listed n
  have hcard : t.present.card = t.order.length := by
    show (Tables.after ops).1.present.card = (Tables.after ops).1.order.length
    rw [hb]
    exact b.card_present
  have hnodup : t.order.Nodup := horder ▸ hkept.nodup
  have hsorted := hkept.sorted
  have hbounded := hkept.bounded
  rw [← horder, ← hlog] at hsorted
  rw [← horder] at hbounded
  refine ⟨⟨hnodup, hlisted, hsorted⟩, ⟨by rw [hcard]; exact hbounded, hbounded⟩, fun n => ?_, fun n hn => if_pos hn,
    fun n hn hroom => ?_, fun n hn hfull => ?_⟩
  · rw [Tables.has, decide_eq_true_eq, ← hlisted]
    show n ∈ (Tables.after ops).1.order ↔ Fifo.Inside (Tables.after ops).2 n
    rw [horder, hlog]
    exact hkept.mem n
  · rw [Tables.insert, if_neg hn, Tables.evict, if_neg (by omega)]
  · obtain ⟨old, rest, ho⟩ := List.exists_cons_of_length_pos (hcard ▸ hfull ▸ by decide : 0 < t.order.length)
    refine ⟨old, rest, ho, ?_⟩
    rw [Tables.insert, if_neg hn, Tables.evict, if_pos (Nat.le_of_eq hfull.symm), ho]

end Havuz.BackendStatements
