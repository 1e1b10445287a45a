import Havuz.Lib.Run
import Havuz.Prepared
import Havuz.Sql.Params

/-!
# Backend connections

Reference: `havuz-pg/src/backend.rs`, and the functions of `havuz-pg/src/txn.rs` that talk to one backend:
`replay_parse`, `close_statement`, `sync_params`, `pump_until_ready`.

The server at the other end is a parameter. It answers in order: `Server.write` hands it one message
and returns what it will send back, so the replies still to be read are a queue. A connection that
dies is a server that stops answering; a read of an empty queue returns only when the connection is
lost, so here it is the failed read.

Three fields of a connection exist for the proofs alone and no modelled decision reads them: who
asked for a queued reply (`Reply.origin`), and the trace of what was written and read since the
checkout began, with the state the server was in at each write.
-/

namespace Havuz

open Lib Sql

/-- The server at the other end of a connection. -/
structure Server (σ : Type) where
  /-- The state a new connection starts in, one for each way the server may behave from then on. -/
  start : Nat → σ
  /-- Hand over one message. `none` is a write that fails; otherwise the replies it will send. -/
  write : σ → Message → Option (σ × List Message)
  /-- Whether flushing the stream succeeds. -/
  flush : σ → Bool

/-- Who a reply answers. -/
inductive Origin where
  /-- A message of the client's, possibly renamed. -/
  | client
  /-- A message the pooler sent on its own account. -/
  | pooler
deriving DecidableEq, Repr

/-- A reply on its way, with who asked for it. -/
structure Reply where
  origin : Origin
  msg : Message
deriving DecidableEq, Repr

/-- What happens on a connection. -/
inductive IoEvent (σ : Type) where
  /-- A message was handed to a server in state `server`. -/
  | wrote (origin : Origin) (server : σ) (msg : Message)
  | got (reply : Reply)
deriving DecidableEq

/-- A live backend connection. -/
structure PgBackend (σ : Type) where
  server : σ
  /-- Replies sent by the server and not read yet. -/
  unread : List Reply := []
  broken : Bool := false
  supportsDiscardAll : Bool
  /-- Global prepared statement names this connection has parsed. -/
  statements : BackendStatements := .clear
  /-- Session parameters currently in force, as the statements that produced them. -/
  appliedParams : ParamMap := .empty
  /-- What was written and read since the checkout began. -/
  trace : List (IoEvent σ) := []
deriving DecidableEq

namespace PgBackend

variable {σ : Type}

/-- Read up to the first reply `stop` recognises: its answer, what was read, and the connection. -/
def read {β : Type} (stop : Message → Option β) (c : PgBackend σ) :
    Option β × List Reply × PgBackend σ :=
  let r := readUntil (fun x : Reply => stop x.msg) c.unread
  (r.1, r.2.1, { c with unread := r.2.2, trace := c.trace ++ r.2.1.map .got })

/-- Record the parameters now in force. -/
def setAppliedParams (c : PgBackend σ) (params : ParamMap) : PgBackend σ :=
  { c with appliedParams := params }

variable (srv : Server σ)

/-- Write one message on behalf of `origin`. -/
def write (origin : Origin) (m : Message) (c : PgBackend σ) : Option (PgBackend σ) :=
  match srv.write c.server m with
  | none => none
  | some (server, replies) =>
      some { c with
        server
        unread := c.unread ++ replies.map (⟨origin, ·⟩)
        trace := c.trace ++ [.wrote origin c.server m] }

/-! ## Resetting -/

/-- How `simple_query` reads: `ReadyForQuery` ends it well, an error does not. -/
def resetStop (m : Message) : Option Bool :=
  if m.tag = byte 'Z' then some true else if m.tag = byte 'E' then some false else none

/-- Run one simple query and drain to `ReadyForQuery`. -/
def simpleQuery (sql : Text) (c : PgBackend σ) : PgBackend σ :=
  if c.broken then c
  else
    match c.write srv .pooler (.query sql) with
    | none => { c with broken := true }
    | some c =>
        if !srv.flush c.server then { c with broken := true }
        else
          match c.read resetStop with
          | (some true, _, c) => c
          | (_, _, c) => { c with broken := true }

/-- The statement that returns a connection to its defaults. -/
def discardStatement (c : PgBackend σ) : Text :=
  if c.supportsDiscardAll then "DISCARD ALL".toList else "RESET ALL".toList

/-- `BackendConn::reset`: `true` is `ResetOutcome::Cleaned`, `false` is `ResetOutcome::Discard`. -/
def reset (c : PgBackend σ) : Bool × PgBackend σ :=
  if c.broken then (false, c)
  else
    let c := c.simpleQuery srv "ROLLBACK".toList
    let c := c.simpleQuery srv c.discardStatement
    let c := { c with statements := .clear, appliedParams := .empty }
    (!c.broken, c)

/-! ## Statements the client did not ask for -/

/-- `Close` of a statement, as `close_statement` builds it. -/
def closeMessage (name : Bytes) : Message := ⟨byte 'C', byte 'S' :: name ++ [0]⟩

/-- `CloseComplete`, or an error that is ignored. -/
def closeStop (m : Message) : Option Unit :=
  if m.tag = byte '3' ∨ m.tag = byte 'E' then some () else none

/-- Deallocate a statement on the backend, out of band from the client's stream. -/
def closeStatement (name : Bytes) (c : PgBackend σ) : Except ProtoError Unit × PgBackend σ :=
  let failed := Except.error (ProtoError.backend "closing statement".toList)
  match c.write srv .pooler (closeMessage name) with
  | none => (failed, c)
  | some c =>
      match c.write srv .pooler .flush with
      | none => (failed, c)
      | some c =>
          if !srv.flush c.server then (failed, c)
          else
            match c.read closeStop with
            | (some (), _, c) => (.ok (), c)
            | (none, _, c) => (failed, c)

/-- `ParseComplete`, or the error that rejects the statement. -/
def parseStop (m : Message) : Option (Except Text Unit) :=
  if m.tag = byte '1' then some (.ok ())
  else if m.tag = byte 'E' then some (.error (m.errorMessage.getD "prepare failed".toList))
  else none

/-- Teach a backend a statement it has not seen. -/
def replayParse (parse name : Bytes) (c : PgBackend σ) : Except ProtoError Unit × PgBackend σ :=
  match c.write srv .pooler ⟨byte 'P', parse⟩ with
  | none => (.error (.backend "replaying Parse".toList), c)
  | some c =>
      match c.write srv .pooler .flush with
      | none => (.error (.backend "flushing Parse".toList), c)
      | some c =>
          if !srv.flush c.server then (.error (.backend "flushing Parse".toList), c)
          else
            match c.read parseStop with
            | (none, _, c) => (.error (.backend "reading Parse reply".toList), c)
            | (some (.error detail), _, c) =>
                (.error (.protocol ("backend rejected replayed statement: ".toList ++ detail)), c)
            | (some (.ok ()), _, c) =>
                match c.statements.insert name with
                | (statements, some evicted) => closeStatement srv evicted { c with statements }
                | (statements, none) => (.ok (), { c with statements })

/-! ## Session parameters -/

/-- Outcome of bringing a backend in line with a client's session parameters. -/
inductive ParamSync where
  | unchanged
  | applied
  | refused (detail : Text)
deriving DecidableEq, Repr

/-- What the errors of a parameter batch say, the last one if there are several. -/
def batchFailure (read : List Reply) : Option Text :=
  read.foldl (fun failure r =>
    if r.msg.tag = byte 'E' then
      some (r.msg.errorMessage.getD "backend rejected the parameter".toList)
    else failure) none

/-- The text `sync_params` sends: the statements of the delta, joined. -/
def batchSql (statements : List Text) : Text := Text.join "; ".toList statements

/-- Carry a client's session parameters onto the backend it just borrowed. -/
def syncParams (params : ClientParams) (c : PgBackend σ) :
    Except ProtoError ParamSync × PgBackend σ :=
  let failed := Except.error (ProtoError.backend "applying session parameters".toList)
  let statements := params.delta c.appliedParams
  if statements.isEmpty then (.ok .unchanged, c)
  else
    let sql := batchSql statements
    match c.write srv .pooler (.query sql) with
    | none => (failed, c)
    | some c =>
        if !srv.flush c.server then (failed, c)
        else
          match c.read (fun m => if m.tag = byte 'Z' then some () else none) with
          | (none, _, c) => (failed, c)
          | (some (), read, c) =>
              match batchFailure read with
              | some detail =>
                  (.ok (.refused (detail ++ " (while running: ".toList ++ sql ++ [')'])), c)
              | none => (.ok .applied, c.setAppliedParams params.desired)

end PgBackend

/-! ## Relaying replies -/

/-- How an exchange ended. -/
structure ExchangeEnd where
  status : TransactionStatus
  /-- The server reported an error. -/
  errored : Bool
deriving DecidableEq, Repr

/-- What a turn of `pump_until_ready` did: how it ended, what the client got, what was read and what
is left. -/
structure Pumped where
  ending : Option ExchangeEnd
  delivered : List Reply
  read : List Reply
  rest : List Reply
deriving DecidableEq

/-- Whether a reply hands the connection over to a streaming sub-protocol (`CopyInResponse`,
`CopyBothResponse`). -/
def opensCopy (m : Message) : Bool := m.tag = byte 'G' || m.tag = byte 'W'

@[simp] theorem opensCopy_readyForQuery (status : TransactionStatus) :
    opensCopy (.readyForQuery status) = false := rfl

/-- Copy backend output to the client until `ReadyForQuery`. `accepts` bounds how many more messages
the client's socket takes before it fails. -/
def pumpLoop : Option Nat → Bool → List Reply → Pumped
  | _, _, [] => ⟨none, [], [], []⟩
  | accepts, errored, r :: rest =>
      let errored := errored || r.msg.tag = byte 'E'
      if accepts = some 0 then ⟨none, [], [r], rest⟩
      else
        match r.msg.transactionStatus with
        | some status => ⟨some ⟨status, errored⟩, [r], [r], rest⟩
        | none =>
            if opensCopy r.msg then ⟨some ⟨.inTransaction, errored⟩, [r], [r], rest⟩
            else
              let p := pumpLoop (accepts.map (· - 1)) errored rest
              { p with delivered := r :: p.delivered, read := r :: p.read }

/-- `pump_until_ready` on a connection. -/
def PgBackend.pumpUntilReady {σ : Type} (accepts : Option Nat) (c : PgBackend σ) :
    Option ExchangeEnd × List Reply × PgBackend σ :=
  let p := pumpLoop accepts false c.unread
  (p.ending, p.delivered, { c with unread := p.rest, trace := c.trace ++ p.read.map .got })

end Havuz
