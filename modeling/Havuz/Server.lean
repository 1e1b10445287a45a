import Havuz.Backend

/-!
# What PostgreSQL is relied on for

The server is a parameter of the model. The results about the relay rest on documented behaviour of
PostgreSQL's side of the protocol, stated here as laws about `Server.write`; each result takes the
bundles it needs. What a law calls a property of the server's state (taking COPY data, skipping to
the next Sync, outside a transaction block) is a parameter as well.
-/

namespace Havuz

/-- The messages a server answers with `ReadyForQuery`: Query, Sync and FunctionCall. -/
def isSyncPoint (tag : UInt8) : Bool := tag = byte 'Q' || tag = byte 'S' || tag = byte 'F'

/-- A reply after which the server waits for the client: `ReadyForQuery`, or the start of a COPY. -/
def isTerminal (m : Message) : Bool := m.tag = byte 'Z' || opensCopy m

variable {σ : Type}

/-- Replies come in order and end where the protocol says. `copying` is taking the data of a COPY that
a simple Query started. -/
structure Answers (srv : Server σ) (copying : σ → Prop) : Prop where
  start : ∀ n, ¬ copying (srv.start n)
  /-- The body of a `ReadyForQuery` is a transaction status. -/
  ready_status : ∀ {s m s' rs}, srv.write s m = some (s', rs) → ∀ x ∈ rs, x.tag = byte 'Z' →
    ∃ status, x = .readyForQuery status
  /-- Nothing follows a `ReadyForQuery` or the start of a COPY until the client says more. -/
  terminal_last : ∀ {s m s' rs}, srv.write s m = some (s', rs) → ∀ front x back,
    rs = front ++ x :: back → isTerminal x = true → back = []
  /-- `ReadyForQuery` answers Query, Sync and FunctionCall, and ends the COPY of a simple Query. -/
  ready_tag : ∀ {s m s' rs}, srv.write s m = some (s', rs) → ∀ x ∈ rs, x.tag = byte 'Z' →
    isSyncPoint m.tag = true ∨ copying s
  /-- COPY is started by a Query or by an Execute. -/
  opens_tag : ∀ {s m s' rs}, srv.write s m = some (s', rs) → ∀ x ∈ rs, opensCopy x = true →
    m.tag = byte 'Q' ∨ m.tag = byte 'E'
  copying_step : ∀ {s m s' rs}, srv.write s m = some (s', rs) → copying s' →
    copying s ∨ (m.tag = byte 'Q' ∧ ∃ x ∈ rs, opensCopy x = true)
  ready_copying : ∀ {s m s' rs}, srv.write s m = some (s', rs) → ∀ x ∈ rs, x.tag = byte 'Z' →
    ¬ copying s'
  /-- Flush asks for what is due and has no reply of its own. -/
  flush_silent : ∀ {s m s' rs}, srv.write s m = some (s', rs) → m.tag = byte 'H' → rs = []

/-- Transaction blocks. `idle` is being outside one, `opensBlock` holds of the texts that may leave a
session inside one. -/
structure Blocks (srv : Server σ) (idle : σ → Prop) (opensBlock : Text → Prop) : Prop where
  start : ∀ n, idle (srv.start n)
  /-- The status byte tells the truth. -/
  status : ∀ {s m s' rs st}, srv.write s m = some (s', rs) → Message.readyForQuery st ∈ rs →
    (idle s' ↔ st = .idle)
  /-- A query that opens no block, run outside one, ends outside one. -/
  query : ∀ {s sql s' rs st}, srv.write s (.query sql) = some (s', rs) → idle s → ¬ opensBlock sql →
    Message.readyForQuery st ∈ rs → st = .idle
  /-- A `ROLLBACK` that is not refused ends the block. -/
  rollback : ∀ {s s' rs st}, srv.write s (.query "ROLLBACK".toList) = some (s', rs) →
    (∀ x ∈ rs, x.tag ≠ byte 'E') → Message.readyForQuery st ∈ rs → st = .idle
  discard : ¬ opensBlock "DISCARD ALL".toList ∧ ¬ opensBlock "RESET ALL".toList

/-- After an error in the extended protocol everything up to the next Sync is discarded unread. -/
structure Skips (srv : Server σ) (skipping : σ → Prop) : Prop where
  skip : ∀ {s m s' rs}, skipping s → m.tag ≠ byte 'S' → srv.write s m = some (s', rs) →
    s' = s ∧ rs = []
  /-- An extended-protocol message that fails starts the skipping, unless the error also ends the COPY
  of a simple Query. -/
  enter : ∀ {s m s' rs}, srv.write s m = some (s', rs) →
    (m.tag = byte 'P' ∨ m.tag = byte 'B' ∨ m.tag = byte 'D' ∨ m.tag = byte 'E' ∨
      m.tag = byte 'C') → (∃ x ∈ rs, x.tag = byte 'E') → (∀ x ∈ rs, x.tag ≠ byte 'Z') → skipping s'

/-- The answer to a `Parse` ends with `ParseComplete` or an error, the one to a `Close` with
`CloseComplete` or an error, if there is one at all. -/
structure Completes (srv : Server σ) (copying : σ → Prop) : Prop where
  parse_last : ∀ {s m s' rs}, srv.write s m = some (s', rs) → ¬ copying s → m.tag = byte 'P' →
    ∀ front x back, rs = front ++ x :: back → x.tag = byte '1' ∨ x.tag = byte 'E' → back = []
  close_last : ∀ {s m s' rs}, srv.write s m = some (s', rs) → ¬ copying s → m.tag = byte 'C' →
    ∀ front x back, rs = front ++ x :: back → x.tag = byte '3' ∨ x.tag = byte 'E' → back = []

/-- The connection stays up. -/
structure Live (srv : Server σ) : Prop where
  write : ∀ s m, srv.write s m ≠ none
  flush : ∀ s, srv.flush s = true

/-- Prepared statements. `find` is what a name stands for: query text and parameter types. A session is
`attentive` when it neither skips to a Sync nor takes COPY data, `accepts` says which statements it
would take under a free name, and `prepares` which messages prepare or deallocate by SQL. -/
structure Prepares (srv : Server σ) (find : σ → Bytes → Option (Bytes × Bytes))
    (attentive : σ → Prop) (accepts : σ → Bytes → Bytes → Prop) (prepares : σ → Message → Prop) :
    Prop where
  start : ∀ k n, find (srv.start k) n = none
  /-- A connection that fails to take a message takes no other one. -/
  dead : ∀ {s m}, srv.write s m = none → ∀ m', srv.write s m' = none
  attentive_of_accepts : ∀ {s sql types}, accepts s sql types → attentive s
  /-- `Parse` touches the name it gives. An answer of `ParseComplete` says it took effect; otherwise
  the unnamed statement may be gone. -/
  parse : ∀ {s body s' rs name rest sql types}, srv.write s ⟨byte 'P', body⟩ = some (s', rs) →
    takeCstring body = some (name, rest) → takeCstring rest = some (sql, types) →
    (∀ n, n ≠ name → find s' n = find s n) ∧
      ((∃ x ∈ rs, x.tag = byte '1') → find s' name = some (sql, types)) ∧
      ((∀ x ∈ rs, x.tag ≠ byte '1') → find s' name = find s name ∨ find s' name = none)
  accepted : ∀ {s body s' rs name rest sql types}, accepts s sql types →
    srv.write s ⟨byte 'P', body⟩ = some (s', rs) → takeCstring body = some (name, rest) →
    takeCstring rest = some (sql, types) → find s name = none →
    (∃ x ∈ rs, x.tag = byte '1') ∧ attentive s'
  /-- `Close` of a statement takes it away if it is read at all; it never fails. -/
  close : ∀ {s rest s' rs name back}, srv.write s ⟨byte 'C', byte 'S' :: rest⟩ = some (s', rs) →
    takeCstring rest = some (name, back) →
    (∀ n, n ≠ name → find s' n = find s n) ∧ (find s' name = find s name ∨ find s' name = none) ∧
      (attentive s → find s' name = none ∧ attentive s') ∧
      ∀ sql types, accepts s sql types → accepts s' sql types
  /-- `Close` of a portal. -/
  closePortal : ∀ {s kind rest s' rs}, srv.write s ⟨byte 'C', kind :: rest⟩ = some (s', rs) →
    kind ≠ byte 'S' → ∀ n, find s' n = find s n
  /-- No other message touches a statement, unless by SQL; a Query may drop the unnamed one. -/
  other : ∀ {s m s' rs}, srv.write s m = some (s', rs) → m.tag ≠ byte 'P' → m.tag ≠ byte 'C' →
    (m.tag = byte 'Q' ∨ m.tag = byte 'E' → ¬ prepares s m) →
    ∀ n, find s' n = find s n ∨ (m.tag = byte 'Q' ∧ n = [] ∧ find s' n = none)
  flush : ∀ {s m s' rs}, srv.write s m = some (s', rs) → m.tag = byte 'H' →
    (attentive s → attentive s') ∧ ∀ sql types, accepts s sql types → accepts s' sql types
  /-- `DISCARD ALL` deallocates everything, if it is run. -/
  discard : ∀ {s s' rs}, srv.write s (.query "DISCARD ALL".toList) = some (s', rs) →
    (∀ n, find s' n = find s n ∨ find s' n = none) ∧
      ((∀ x ∈ rs, x.tag ≠ byte 'E') → (∃ status, Message.readyForQuery status ∈ rs) →
        ∀ n, find s' n = none)
  resets : ∀ s, ¬ prepares s (.query "ROLLBACK".toList) ∧ ¬ prepares s (.query "RESET ALL".toList)

end Havuz
