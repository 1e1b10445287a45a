import Havuz.Flow
import Havuz.Text

/-!
# The agent's side of a JDBC connection

Reference: `Session.java` and `Agent.java`. A request is a few driver calls, each of which may throw, and what was
done before stays done. The driver is taken to behave as JDBC says: with autocommit off there is a transaction,
switching autocommit on inside one commits it, and closing the connection inside one may commit it. What the
database makes of a text is its own affair: it performs statements of it, in order, until one fails.
-/

namespace Havuz.Jdbc

/-- What a statement does when the database performs it. -/
inductive Statement where
  /-- A piece of work, with what it leaves behind in the session. -/
  | work (leaves : Option PinReason)
  | opens
  | commits
  | rollsBack
deriving DecidableEq, Repr

/-- A JDBC connection and the database session behind it. -/
structure Connection where
  /-- With autocommit off, how many statements of the transaction are not durable. -/
  tx : Option ℕ := none
  /-- With autocommit on, a transaction was opened by SQL. -/
  block : Bool := false
  /-- What the statements performed on it since it was borrowed have left behind. -/
  left : List PinReason := []
  closed : Bool := false
deriving DecidableEq, Repr

/-- `Connection.getAutoCommit`. -/
def Connection.autoCommit (c : Connection) : Bool := c.tx.isNone

/-- How many statements of its open transaction are not durable. -/
def Connection.pending (c : Connection) : ℕ := c.tx.getD 0

/-- An exception, as far as it is reported. -/
structure Thrown where
  sqlState : Option Text
  message : Text
deriving DecidableEq, Repr

/-- A connection during a request. `throws` tells of the next driver calls which of them throw. -/
structure Jvm where
  conn : Connection
  /-- How many statements of transactions have been made durable. -/
  durable : ℕ
  throws : List (Option Thrown)
deriving DecidableEq, Repr

/-! ## The driver -/

namespace Jvm

def setAutoCommit (on : Bool) (j : Jvm) : Jvm :=
  match on, j.conn.tx with
  | true, some n => { j with conn := { j.conn with tx := none, block := false }, durable := j.durable + n }
  | true, none => j
  | false, some _ => j
  | false, none => { j with conn := { j.conn with tx := some 0 } }

def commit (j : Jvm) : Jvm :=
  { j with
    conn := { j.conn with tx := j.conn.tx.map fun _ => 0, block := false }
    durable := j.durable + j.conn.pending }

def rollback (j : Jvm) : Jvm := { j with conn := { j.conn with tx := j.conn.tx.map fun _ => 0, block := false } }

def perform (j : Jvm) : Statement → Jvm
  | .work leaves =>
      { j with conn := { j.conn with tx := j.conn.tx.map (· + 1), left := j.conn.left ++ leaves.toList } }
  | .opens => { j with conn := { j.conn with block := j.conn.block || j.conn.autoCommit } }
  | .commits => j.commit
  | .rollsBack => j.rollback

/-- The connection is closed. Inside a transaction it is up to the driver what becomes of it. -/
def close (commits : Bool) (j : Jvm) : Jvm :=
  { j with
    conn := { j.conn with tx := none, block := false, closed := true }
    durable := if commits then j.durable + j.conn.pending else j.durable }

end Jvm

/-- Java code that works on a connection. -/
abbrev Java := EStateM Thrown Jvm

/-- A call into the driver, which throws or does `f`. -/
def driver (f : Jvm → Jvm) : Java Unit := fun j =>
  match j.throws with
  | some e :: rest => .error e { j with throws := rest }
  | none :: rest => .ok () (f { j with throws := rest })
  | [] => .ok () (f j)

def getAutoCommit : Java Bool := do
  driver id
  return (← get).conn.autoCommit

/-- `Statement.execute`: what the database has performed of the text stays, also when it then throws. -/
def executeStatement (ran : List Statement) : Java Unit := do
  modify fun j => ran.foldl Jvm.perform j
  driver id

/-! ## `Session.java` -/

namespace AgentSession

def inTransaction : Java Bool := do
  return !(← getAutoCommit)

def begin : Java Unit := do
  if ← getAutoCommit then driver (Jvm.setAutoCommit false)

def commit : Java Unit := do
  if !(← getAutoCommit) then
    driver Jvm.commit
    driver (Jvm.setAutoCommit true)

def rollback : Java Unit := do
  if !(← getAutoCommit) then
    driver Jvm.rollback
    driver (Jvm.setAutoCommit true)

end AgentSession

/-! ## Requests -/

structure FieldDescription where
  name : Text
  typeOid : Int
  typeSize : Int
deriving DecidableEq, Repr

/-- A parameter value on its way to the driver. -/
inductive Value where
  | null
  | text (value : Text)
  | binary (hex : Text)
deriving DecidableEq, Repr

/-- What the agent is asked for on one session. -/
inductive Request where
  | execute (sql : Text) (params : List Value)
  | describe (sql : Text)
  | begin
  | commit
  | rollback
  | reset (sql : Text)
deriving DecidableEq, Repr

/-- What the agent said about one statement. -/
structure Outcome where
  columns : List FieldDescription
  rows : List (List (Option Bytes))
  updateCount : Int
  inTransaction : Bool
deriving DecidableEq, Repr

inductive Answer where
  | executed (outcome : Outcome)
  | described (columns : List FieldDescription) (paramCount : Int)
  | state (inTransaction : Bool)
  | reset (valid : Bool)
deriving DecidableEq, Repr

/-- The JVM stopped answering. -/
inductive Fault where
  | gone (reason : Text)
  | timeout
  | transport (reason : Text)
deriving DecidableEq, Repr

inductive Link where
  | answered
  /-- No answer came; the agent may have performed the request all the same. -/
  | lost (performed : Bool) (fault : Fault)
deriving DecidableEq, Repr

/-- What havuz has no say in, for one request: the driver calls that throw, what the database performs and
reports, and whether the answer arrives. -/
structure Luck where
  throws : List (Option Thrown) := []
  ran : List Statement := []
  columns : List FieldDescription := []
  rows : List (List (Option Bytes)) := []
  updateCount : Int := -1
  paramCount : Int := -1
  valid : Bool := true
  link : Link := .answered
  /-- No connection is free. -/
  exhausted : Option Text := none
deriving DecidableEq, Repr

namespace AgentSession

variable (luck : Luck)

/-- A transaction is rolled back, and the caller's reset statement is run. -/
def reset (sql : Text) : Java Bool := do
  rollback
  -- `clearWarnings`
  driver id
  if !(Text.trim sql).isEmpty then
    driver id
    executeStatement luck.ran
    driver id
  driver id
  return luck.valid

def execute (_sql : Text) (_params : List Value) : Java Outcome := do
  -- the statement is created, and its parameters are bound
  driver id
  executeStatement luck.ran
  -- its result is read
  driver id
  let inTransaction ← inTransaction
  -- and it is closed
  driver id
  return ⟨luck.columns, luck.rows, luck.updateCount, inTransaction⟩

def describe (_sql : Text) : Java (List FieldDescription × Int) := do
  driver id
  driver id
  return (luck.columns, luck.paramCount)

end AgentSession

/-- `Agent.dispatch`, for the session of this connection. -/
def dispatch (luck : Luck) : Request → Java Answer
  | .execute sql params => do return .executed (← AgentSession.execute luck sql params)
  | .describe sql => do
      let described ← AgentSession.describe luck sql
      return .described described.1 described.2
  | .begin => do
      AgentSession.begin
      return .state (← AgentSession.inTransaction)
  | .commit => do
      AgentSession.commit
      return .state (← AgentSession.inTransaction)
  | .rollback => do
      AgentSession.rollback
      return .state (← AgentSession.inTransaction)
  | .reset sql => do return .reset (← AgentSession.reset luck sql)

/-- `Agent.handle`: a session that is gone is unknown. -/
def handle (luck : Luck) (request : Request) : Java Answer := do
  if (← get).conn.closed then throw ⟨none, "unknown session".toList⟩
  else dispatch luck request

end Havuz.Jdbc
