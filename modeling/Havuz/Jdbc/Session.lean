import Havuz.Jdbc.Agent
import Havuz.Jdbc.Rewrite
import Havuz.Lib.SortedMap
import Havuz.Protocol
import Havuz.Registry

/-!
# Serving a client over JDBC

Reference: `havuz-jdbc/src/session.rs`. There is no backend sending frames to copy: every answer is composed from
what the agent reported. A client message is given as it is decoded, and the tag of a completed text by what
`command_tag` makes it from. Statistics and what the dashboard is told are left out.
-/

namespace Havuz.Jdbc

open Lib

/-! ## What the client says and is told -/

inductive Frontend where
  | query (sql : Text)
  | parse (name sql : Text)
  | bind (portal statement : Text) (sent : List Value)
  | describe (ofStatement : Bool) (name : Text)
  | execute (portal : Text)
  | close (ofStatement : Bool) (name : Text)
  | sync
  | flush
  | terminate
  | other (tag : Char)
deriving DecidableEq, Repr

inductive Reply where
  | parseComplete
  | bindComplete
  | closeComplete
  | emptyQueryResponse
  | noData
  | parameterDescription (params : ℕ)
  | rowDescription (columns : List FieldDescription)
  | dataRow (row : List (Option Bytes))
  /-- The tag of a text, from the text, its number of rows and its update count. -/
  | completed (sql : Text) (rows : ℕ) (updateCount : Int)
  | commandComplete (tag : Text)
  | errorResponse (severity code message : Text)
  | readyForQuery (status : TransactionStatus)
deriving DecidableEq

/-! ## Errors of the agent -/

inductive AgentError where
  | database (sqlState : Option Text) (message : Text)
  | fault (fault : Fault)
  /-- No connection was free to run the statement on. -/
  | exhausted (text : Text)
deriving DecidableEq, Repr

namespace AgentError

/-- The SQLSTATE to report. -/
def sqlState : AgentError → Text
  | database (some state) _ => if state.length = 5 then state else "XX000".toList
  | database none _ => "XX000".toList
  | fault .timeout => "57014".toList
  | fault _ => "08006".toList
  | exhausted _ => "53300".toList

/-- `AgentError`'s `Display`. -/
def text : AgentError → Text
  | database _ message => message
  | fault (.gone reason) => "the JDBC agent is gone: ".toList ++ reason
  | fault .timeout => "the JDBC agent did not answer within 300s".toList
  | fault (.transport reason) => "cannot talk to the JDBC agent: ".toList ++ reason
  | exhausted text => text

end AgentError

/-- Drop a severity the driver already prefixed. -/
def stripSeverity (message : Text) : Text :=
  match ["ERROR: ", "FATAL: ", "PANIC: ", "WARNING: "].findSome? fun severity =>
    Text.stripPrefix severity.toList message with
  | some rest => Text.trimStart rest
  | none => message

namespace Answer

/-- `Outcome::from`, with its defaults. -/
def outcome : Answer → Outcome
  | executed outcome => outcome
  | state inTransaction => ⟨[], [], -1, inTransaction⟩
  | _ => ⟨[], [], -1, false⟩

def inTransaction (a : Answer) : Bool := a.outcome.inTransaction

def description : Answer → List FieldDescription × Int
  | described columns paramCount => (columns, paramCount)
  | _ => ([], -1)

def valid : Answer → Bool
  | reset valid => valid
  | _ => true

end Answer

/-! ## Transaction control -/

/-- `BEGIN`, `COMMIT` or `ROLLBACK`, which the bridge performs rather than forwards. -/
inductive TransactionControl where
  | begin
  | commit
  | rollback
deriving DecidableEq, Repr

namespace TransactionControl

/-- The words of a text, upper-cased, split at white space and semicolons. -/
def words (sql : Text) : List Text :=
  (((Text.trimStart sql).splitOnP fun c => isWhitespace c || c == ';').filter fun word => !word.isEmpty).map
    Text.toAsciiUppercase

/-- What may follow `BEGIN` if it is to start a transaction and not a block. -/
def characteristics : List Text :=
  ["WORK".toList, "TRANSACTION".toList, "ISOLATION".toList, "READ".toList, "DEFERRABLE".toList, "NOT".toList]

def of (sql : Text) : Option TransactionControl :=
  match words sql with
  | [] => none
  | first :: rest =>
      let second := rest.head?
      if first = "BEGIN".toList then
        if second.all fun word => characteristics.contains word then some .begin else none
      else if first = "START".toList then
        if second = some "TRANSACTION".toList then some .begin else none
      else if first = "COMMIT".toList then some .commit
      else if first = "END".toList then
        if second.all fun word => word = "WORK".toList ∨ word = "TRANSACTION".toList then some .commit else none
      else if first = "ROLLBACK".toList ∨ first = "ABORT".toList then some .rollback
      else none

def request : TransactionControl → Request
  | begin => .begin
  | commit => .commit
  | rollback => .rollback

/-- PostgreSQL's own tags. -/
def tag : TransactionControl → Text
  | begin => "BEGIN".toList
  | commit => "COMMIT".toList
  | rollback => "ROLLBACK".toList

end TransactionControl

/-! ## The session -/

/-- A statement the client parsed but has not run. -/
structure Prepared where
  rewritten : Rewritten
  original : Text
  columns : List FieldDescription
  params : ℕ
deriving DecidableEq

/-- A bound statement, ready to execute. -/
structure Portal where
  statement : Text
  values : List Value
deriving DecidableEq

/-- `JdbcBackend`: a connection, and whether it was poisoned. -/
structure Backend where
  conn : Connection := {}
  broken : Bool := false
deriving DecidableEq

/-- A session with the client it serves. -/
structure Session where
  rules : SessionRules
  flow : SessionState
  held : Option Backend := none
  statements : SortedMap Text Prepared := .empty
  portals : SortedMap Text Portal := .empty
  /-- Everything until `Sync` must be skipped. -/
  failed : Bool := false
  told : List Reply := []
  /-- Of the next writes to the client, which fail. -/
  writes : List Bool := []
  /-- How many statements of transactions have been made durable. Not part of the program, as the next two. -/
  durable : ℕ := 0
  /-- The connections given back by `release_if_idle`, as they were then. -/
  handed : List Connection := []
  /-- The requests made to the agent. -/
  asked : List Request := []
deriving DecidableEq

namespace Session

def observeFlow (event : FlowEvent) (s : Session) : Session := { s with flow := s.flow.observe event }

/-- Fold one statement's outcome into the release decision. -/
def observe (sql : Text) (inTransaction : Bool) (s : Session) : Session :=
  let flow :=
    match if s.flow.mode.multiplexes then s.rules.classify sql else none with
    | some reason => s.flow.observe (.mustPin reason)
    | none => s.flow
  { s with flow := flow.observe (if inTransaction then .inTransaction else .idle) }

/-- Mark the connection unusable. -/
def poison (s : Session) : Session := { s with held := s.held.map fun b => { b with broken := true } }

/-- A database error is the statement's problem; anything else leaves the connection unknown. -/
def observeError (e : AgentError) (s : Session) : Session :=
  match e with
  | .database _ _ => s
  | _ => (s.observeFlow .broken).poison

/-- Give the backend back if the client is between transactions. -/
def releaseIfIdle (s : Session) : Session :=
  match s.held with
  | some b =>
      if s.flow.isReleasable then
        { s with held := none, flow := s.flow.released, handed := s.handed ++ [b.conn] }
      else s
  | none => s

/-- The session after a request was performed on its connection. -/
def after (s : Session) (b : Backend) (j : Jvm) : Session :=
  { s with held := some { b with conn := j.conn }, durable := j.durable }

end Session

/-- Code that serves the client, and may end the session. -/
abbrev Serve := EStateM ProtoError Session

def write (reply : Reply) : Serve Unit := fun s =>
  match s.writes with
  | true :: rest => .error (.protocol []) { s with writes := rest }
  | _ => .ok () { s with told := s.told ++ [reply], writes := s.writes.tail }

section Serve

-- What happens to the one request a client message leads to.
variable (luck : Luck)

/-- Borrows a connection if the client is not holding any. -/
def backend : Serve (Except AgentError Unit) := do
  if (← get).held.isSome then return .ok ()
  else
    match luck.exhausted with
    | some text => return .error (.exhausted text)
    | none =>
        modify fun s => { s with held := some {} }
        return .ok ()

/-- `Agent::call` for the connection that is held. -/
def call (request : Request) : Serve (Except AgentError Answer) := do
  modify fun s => { s with asked := s.asked ++ [request] }
  let s ← get
  match s.held with
  | none => return .error (.database none "unknown session ''".toList)
  | some b =>
      match handle luck request ⟨b.conn, s.durable, luck.throws⟩, luck.link with
      | .ok answer j, .answered =>
          set (s.after b j)
          return .ok answer
      | .error e j, .answered =>
          set (s.after b j)
          return .error (.database e.sqlState (stripSeverity e.message))
      | .ok _ j, .lost performed fault =>
          if performed then set (s.after b j)
          return .error (.fault fault)
      | .error _ j, .lost performed fault =>
          if performed then set (s.after b j)
          return .error (.fault fault)

/-- Roll back whatever this session is holding. -/
def abandon : Serve Unit := do
  if (← get).held.isSome then
    match ← call luck .rollback with
    | .ok _ => modify (Session.observeFlow .idle)
    | .error _ => modify fun s => s.poison.observeFlow .idle

def runSql (sql : Text) (values : List Value) : Serve (Except AgentError Outcome) := do
  match ← backend luck with
  | .error e => return .error e
  | .ok () =>
      match ← call luck (.execute sql values) with
      | .error e =>
          modify (Session.observeError e)
          return .error e
      | .ok answer =>
          modify (Session.observe sql answer.outcome.inTransaction)
          return .ok answer.outcome

def agentDescribe (sql : Text) : Serve (Except AgentError (List FieldDescription × ℕ)) := do
  match ← backend luck with
  | .error e => return .error e
  | .ok () =>
      match ← call luck (.describe sql) with
      | .error e =>
          modify (Session.observeError e)
          return .error e
      | .ok answer => return .ok (answer.description.1, answer.description.2.toNat)

def control (c : TransactionControl) : Serve (Except AgentError Unit) := do
  if (← get).held.isNone && c != .begin then
    -- ending a transaction nobody started needs no backend
    modify (Session.observeFlow .idle)
    return .ok ()
  else
    match ← backend luck with
    | .error e => return .error e
    | .ok () =>
        match ← call luck c.request with
        | .error e =>
            modify (Session.observeError e)
            return .error e
        | .ok answer =>
            modify (Session.observeFlow (if answer.inTransaction then .inTransaction else .idle))
            return .ok ()

/-- Write a result set the way PostgreSQL would. -/
def emit (sql : Text) (outcome : Outcome) (describe : Bool) : Serve Unit := do
  if !outcome.columns.isEmpty && describe then write (.rowDescription outcome.columns)
  outcome.rows.forM fun row => write (.dataRow row)
  write (.completed sql outcome.rows.length outcome.updateCount)

/-- End an exchange: hand the backend back if it can be, then say that we are ready. -/
def ready : Serve Unit := do
  let status := if (← get).flow.inTransaction then TransactionStatus.inTransaction else .idle
  modify Session.releaseIfIdle
  write (.readyForQuery status)

/-- Report an error and stop processing until the client synchronises. -/
def fail (code message : Text) : Serve Unit := do
  modify fun s => { s with failed := true }
  write (.errorResponse "ERROR".toList code message)

def report (e : AgentError) : Serve Unit := write (.errorResponse "ERROR".toList e.sqlState e.text)

def simpleQuery (sql : Text) : Serve Unit := do
  if (Text.trim sql).isEmpty then
    write .emptyQueryResponse
    ready
  else
    match TransactionControl.of sql with
    | some c =>
        match ← control luck c with
        | .ok () => write (.commandComplete c.tag)
        | .error e => report e
        ready
    | none =>
        match ← runSql luck (toJdbc sql).sql [] with
        | .ok outcome => emit sql outcome true
        | .error e => report e
        ready

def parse (name sql : Text) : Serve Unit := do
  if (← get).failed then return
  else
    let rewritten := toJdbc sql
    match ← agentDescribe luck rewritten.sql with
    | .error e => fail e.sqlState e.text
    | .ok (columns, params) =>
        let prepared : Prepared := ⟨rewritten, sql, columns, if 0 < params then params else rewritten.highest⟩
        modify fun s => { s with statements := s.statements.insert name prepared }
        write .parseComplete

/-- JDBC is positional: a repeated `$1` needs the value twice, and `$2, $1` needs them swapped. -/
def bind (portal statement : Text) (sent : List Value) : Serve Unit := do
  let s ← get
  if s.failed then return
  else
    match s.statements.get statement with
    | none =>
        fail Sqlstate.protocolViolation
          ("prepared statement \"".toList ++ statement ++ "\" does not exist".toList)
    | some prepared =>
        let values := prepared.rewritten.order.map fun slot => (sent[slot]?).getD .null
        set { s with portals := s.portals.insert portal ⟨statement, values⟩ }
        write .bindComplete

def describe (ofStatement : Bool) (name : Text) : Serve Unit := do
  let s ← get
  if s.failed then return
  else
    let found :=
      if ofStatement then s.statements.get name
      else (s.portals.get name).bind fun portal => s.statements.get portal.statement
    match found with
    | none => fail Sqlstate.protocolViolation ("\"".toList ++ name ++ "\" does not exist".toList)
    | some prepared =>
        if ofStatement then write (.parameterDescription prepared.params)
        if prepared.columns.isEmpty then write .noData else write (.rowDescription prepared.columns)

def execute (portal : Text) : Serve Unit := do
  let s ← get
  if s.failed then return
  else
    match s.portals.get portal with
    | none => fail Sqlstate.protocolViolation ("portal \"".toList ++ portal ++ "\" does not exist".toList)
    | some bound =>
        match s.statements.get bound.statement with
        | none => fail Sqlstate.protocolViolation "the portal's statement is gone".toList
        | some prepared =>
            match TransactionControl.of prepared.original with
            | some c =>
                match ← control luck c with
                | .ok () => write (.commandComplete c.tag)
                | .error e => fail e.sqlState e.text
            | none =>
                match ← runSql luck prepared.rewritten.sql bound.values with
                -- the client asked for the columns with `Describe`
                | .ok outcome => emit prepared.original outcome false
                | .error e => fail e.sqlState e.text

def close (ofStatement : Bool) (name : Text) : Serve Unit := do
  modify fun s =>
    if ofStatement then
      { s with
        statements := s.statements.erase name
        portals := s.portals.filter fun e => e.2.statement ≠ name }
    else { s with portals := s.portals.erase name }
  write .closeComplete

def sync : Serve Unit := do
  modify fun s => { s with failed := false }
  ready

/-- What `Session::run` does with one message. -/
def onMessage : Frontend → Serve Unit
  | .query sql => simpleQuery luck sql
  | .parse name sql => parse luck name sql
  | .bind portal statement sent => bind portal statement sent
  | .describe ofStatement name => describe ofStatement name
  | .execute portal => execute luck portal
  | .close ofStatement name => close ofStatement name
  | .sync => sync
  | .flush => return
  | .terminate => return
  | .other tag => do
      fail Sqlstate.protocolViolation ("unsupported message '".toList ++ tag :: "'".toList)
      sync

end Serve

end Havuz.Jdbc
