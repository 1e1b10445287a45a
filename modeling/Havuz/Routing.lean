import Havuz.Sql.Classify
import Havuz.Prepared

/-!
# Choosing a target

Reference: `havuz-pg/src/routing.rs`, and `message_intent` of `havuz-pg/src/txn.rs`. Which replicas are
eligible (lag and circuit breaker) and what time it is are inputs of a decision; everything the
session contributes is modelled.
-/

namespace Havuz

open Sql

/-- Why a statement went to the primary. -/
inductive PrimaryReason where
  | splitDisabled
  | write
  | readAfterWrite
  | transactionPinned
  | noReplicaAvailable
deriving DecidableEq, Repr

/-- Where a statement was sent. -/
inductive Route where
  | primary (reason : PrimaryReason)
  /-- Index into the replica list. -/
  | replica (index : Nat)
deriving DecidableEq, Repr

def Route.isReplica : Route → Bool
  | .primary _ => false
  | .replica _ => true

/-- Per-client-session routing state. Instants are milliseconds. -/
structure SessionRouting where
  lastWrite : Option Nat := none
  /-- Target chosen for the transaction currently in progress. -/
  transactionRoute : Option Route := none
deriving DecidableEq, Repr

namespace SessionRouting

/-- Record that this session wrote, starting the sticky window. -/
def noteWrite (s : SessionRouting) (now : Nat) : SessionRouting := { s with lastWrite := some now }

/-- Would a read from this session still be served by the primary? -/
def isSticky (s : SessionRouting) (now window : Nat) : Bool :=
  if window = 0 then false
  else
    match s.lastWrite with
    | some written => decide (now - written < window)
    | none => false

/-- Pin the session to a target for the duration of a transaction. -/
def beginTransaction (s : SessionRouting) (route : Route) : SessionRouting :=
  { s with transactionRoute := some route }

def endTransaction (s : SessionRouting) : SessionRouting := { s with transactionRoute := none }

end SessionRouting

/-- The part of a pool group the router and the relay read. -/
structure Group where
  name : Text
  readWriteSplit : Bool
  stickyAfterWrite : Nat
  /-- One weight per replica, at least 1 each. -/
  weights : List Nat
  /-- Whether `DISCARD ALL` is understood by this product. -/
  supportsDiscardAll : Bool
deriving DecidableEq, Repr

/-- What the outside world contributes to one routing decision. -/
structure RouterInput where
  now : Nat
  /-- Whether a replica is fit to serve a read (`ReplicaState::is_eligible`). -/
  eligible : Nat → Bool
  /-- The round-robin cursor. -/
  cursor : Nat

/-- Find the replica whose share of the weights holds `position`. -/
def pickAt (position : Nat) : Nat → List (Nat × Nat) → Option Nat
  | _, [] => none
  | accumulated, (index, weight) :: rest =>
      if position < accumulated + weight then some index
      else pickAt position (accumulated + weight) rest

/-- Weighted round-robin over eligible replicas. -/
def Group.pickReplica (g : Group) (input : RouterInput) : Option Nat :=
  let eligible := (g.weights.zipIdx.filter fun wi => input.eligible wi.2).map fun wi => (wi.2, wi.1)
  if eligible.isEmpty then none
  else pickAt (input.cursor % (eligible.map Prod.snd).sum) 0 eligible

/-- `Router::decide`: choose a target for the next statement. -/
def Group.decide (g : Group) (intent : RouteIntent) (s : SessionRouting) (input : RouterInput) :
    Route × SessionRouting :=
  let noted := if intent = .write then s.noteWrite input.now else s
  match s.transactionRoute with
  | some (.primary _) => (.primary .transactionPinned, noted)
  | some (.replica i) => (.replica i, noted)
  | none =>
      if !g.readWriteSplit ∨ g.weights = [] then (.primary .splitDisabled, noted)
      else if intent = .write then (.primary .write, noted)
      else if s.isSticky input.now g.stickyAfterWrite then (.primary .readAfterWrite, s)
      else
        match g.pickReplica input with
        | some i => (.replica i, s)
        | none => (.primary .noReplicaAvailable, s)

/-- The pool a route points at, `none` for the primary's. A replica that does not exist falls back to
the primary. -/
def Group.poolFor (g : Group) : Route → Option Nat
  | .primary _ => none
  | .replica i => if i < g.weights.length then some i else none

/-- Where the statement carried by this message may run. -/
def messageIntent (msg : Message) (statements : ClientStatements) (readOnly : Bool) : RouteIntent :=
  if msg.tag = byte 'Q' then routeIntent (textBody msg.body) readOnly
  else if msg.tag = byte 'P' then
    match secondField msg.body with
    | some sql => routeIntent (fromUtf8Lossy sql) readOnly
    | none => .write
  else if msg.tag = byte 'B' then
    match secondField msg.body with
    | some name =>
        match statements.byName (Text.asBytes (fromUtf8Lossy name)) with
        | some s => routeIntent (fromUtf8Lossy s.sql) readOnly
        | none => .write
    | none => .write
  else .write

end Havuz
