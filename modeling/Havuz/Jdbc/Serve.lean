import Havuz.Jdbc.Session
import Havuz.Lib.Run

/-!
# How a session ends

Reference: `Session::run` in `havuz-jdbc/src/session.rs`, `serve` in `family.rs`, `JdbcBackend::reset` and `close`
in `conn.rs`, `Checkout::recycle` in `havuz-pool/src/pool.rs`, `Agent.shutdown` in `Agent.java`.

A session serves messages until it leaves; whatever it still holds is recycled, and closed if it cannot be
cleaned. A pool that is reloaded or removed shuts its agent down, and that closes the connection of every
session, wherever the session is.
-/

namespace Havuz.Jdbc

open Lib

inductive Phase where
  | serving
  /-- `Session::run` has returned. -/
  | left (failed : Bool)
  /-- The connection was discarded, and the pool is to close it. -/
  | retiring
  | over
deriving DecidableEq, Repr

/-- One session from its first message to the end of its connection. -/
structure World where
  session : Session
  /-- `JdbcConfig::reset_query`. -/
  resetQuery : Option Text
  phase : Phase := .serving
  /-- The connections that went back on the shelf at the end. Not part of the program. -/
  shelved : List Connection := []
deriving DecidableEq

inductive Event where
  /-- A message, what comes of the request it leads to, and which of the writes it leads to fail. -/
  | message (m : Frontend) (luck : Luck) (writes : List Bool)
  /-- The client is gone. -/
  | hangUp
  | kick
  /-- The client sat inside a transaction for too long. -/
  | idleTimeout (luck : Luck)
  /-- The checkout is recycled. It may be too old to be kept, or its pool drained. -/
  | recycle (luck : Luck) (retire : Bool)
  /-- The agent closes the session of a discarded connection; the driver commits what is open, or not. -/
  | close (commits : Bool)
  /-- The agent shuts down. -/
  | shutdown (commits : Bool)
deriving DecidableEq

/-- `Session::new`, with a checkout from the pool. -/
def Session.opened (rules : SessionRules) (mode : PoolMode) : Session :=
  Session.releaseIfIdle { rules, flow := { mode }, held := some {} }

/-- A session that begins, in a pool with this reset query. -/
def opened (rules : SessionRules) (mode : PoolMode) (resetQuery : Option Text) : World :=
  ⟨.opened rules mode, resetQuery, .serving, []⟩

/-- The client is told why its session ends, if it still listens. -/
def Session.toldFatal (code message : Text) (s : Session) : Session :=
  { s with told := s.told ++ [.errorResponse "FATAL".toList code message] }

/-- The agent closes the connection that is held. -/
def Session.closeHeld (commits : Bool) (s : Session) : Session :=
  match s.held with
  | none => s
  | some b => s.after b (Jvm.close commits ⟨b.conn, s.durable, []⟩)

/-- `Checkout::recycle`: whether the connection is clean. -/
def recycle (resetQuery : Option Text) (failed : Bool) (luck : Luck) : Serve Bool := do
  if failed then modify Session.poison
  match resetQuery with
  | none => return false
  | some sql =>
      match ← call luck (.reset sql) with
      | .ok answer =>
          if !answer.valid then modify Session.poison
          return answer.valid
      | .error _ =>
          modify Session.poison
          return false

namespace World

/-- What a command of the session leads to, and where the session is if it has returned or stopped. -/
def after (w : World) {α : Type} (result : EStateM.Result ProtoError Session α) (returned stopped : Phase) : World :=
  match result with
  | .ok _ s => { w with session := s, phase := returned }
  | .error _ s => { w with session := s, phase := stopped }

/-- The end of the checkout: back on the shelf, or to be closed. -/
def giveBack (w : World) (result : EStateM.Result ProtoError Session Bool) (retire : Bool) : World :=
  match result with
  | .ok clean s =>
      match s.held with
      | none => { w with session := s, phase := .over }
      | some b =>
          if clean && !b.broken && !retire then
            { w with session := { s with held := none }, phase := .over, shelved := w.shelved ++ [b.conn] }
          else { w with session := s, phase := .retiring }
  | .error _ s => { w with session := s, phase := .retiring }

end World

def step (w : World) (e : Event) : World :=
  match w.phase, e with
  | .serving, .message .terminate _ _ => { w with phase := .left false }
  | .serving, .message m luck writes => w.after (onMessage luck m { w.session with writes }) .serving (.left true)
  | .serving, .hangUp => { w with phase := .left false }
  | .serving, .kick =>
      let session := w.session.toldFatal Sqlstate.adminShutdown
        "terminating connection due to administrator command".toList
      { w with session, phase := .left false }
  | .serving, .idleTimeout luck =>
      if w.session.flow.inTransaction && w.session.held.isSome then
        let session := w.session.toldFatal Sqlstate.idleInTransactionSessionTimeout
          "terminating connection due to idle-in-transaction timeout".toList
        w.after (abandon luck session) (.left false) (.left false)
      else w
  | .left failed, .recycle luck retire =>
      if w.session.held.isSome then w.giveBack (recycle w.resetQuery failed luck w.session) retire
      else { w with phase := .over }
  | .retiring, .close commits => { w with session := w.session.closeHeld commits, phase := .over }
  | _, .shutdown commits => { w with session := w.session.closeHeld commits }
  | _, _ => w

/-! ## What a message runs -/

namespace Session

/-- The text a message runs, as the client wrote it and as it is sent to the driver. -/
def runs (s : Session) : Frontend → Option (Text × Text)
  | .query sql => if (Text.trim sql).isEmpty then none else some (sql, (toJdbc sql).sql)
  | .execute portal =>
      if s.failed then none
      else do
        let bound ← s.portals.get portal
        let prepared ← s.statements.get bound.statement
        return (prepared.original, prepared.rewritten.sql)
  | _ => none

/-- The transaction control a message asks for. -/
def controls (s : Session) (m : Frontend) : Option TransactionControl :=
  (s.runs m).bind fun text => TransactionControl.of text.1

/-- The text a message has the driver run. -/
def text (s : Session) (m : Frontend) : Option Text :=
  (s.runs m).bind fun text => if (TransactionControl.of text.1).isSome then none else some text.2

/-- The connection the next request is made on. -/
def conn (s : Session) : Connection := (s.held.getD {}).conn

end Session

end Havuz.Jdbc
