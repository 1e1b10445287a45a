import Havuz.Backend
import Havuz.Routing

/-!
# The transaction-mode relay

Reference: `transaction_relay_inner` of `havuz-pg/src/txn.rs`, and `Checkout` and `Pool::acquire` of
`havuz-pool/src/pool.rs`.

One turn of the relay's loop is one call of `relayStep`: it takes the event the loop waited for and
everything the outside world contributes to that turn (`Turn`), and returns the relay after it. A
session that broke out of the loop or returned an error has an `exit`.

A session's `log` is written for the proofs and never read by the relay.
-/

namespace Havuz

open Lib Sql

/-! ## The pool, as the relay sees it -/

/-- Why no backend was handed out. The text is the error's `Display`. -/
inductive PoolError where
  /-- The queue timeout passed; `hint` names the sessions holding the pool. -/
  | timeout (text hint : Text)
  | unavailable (text : Text)
  | connect (text : Text)
deriving DecidableEq, Repr

/-- The idle queues: one per pool, `none` for the primary's. -/
abbrev Shelves (σ : Type) := Option Nat → List (PgBackend σ)

/-- How a call of `Pool::acquire` goes, apart from what is on the shelf. -/
inductive AcquireInput where
  /-- The pool is not active, or no permit came free in time. -/
  | refused (e : PoolError)
  /-- A permit was granted. `expired` says which shelved connections outlived `max_lifetime`, counted
  from the front; `connect` is what opening a new connection gives: which of the server's starting
  states it is in. -/
  | granted (expired : Nat → Bool) (connect : Except PoolError Nat)

/-- Take connections off the front of the shelf until one is fit for service. -/
def takeFit {σ : Type} (expired : Nat → Bool) :
    Nat → List (PgBackend σ) → Option (PgBackend σ) × List (PgBackend σ)
  | _, [] => (none, [])
  | i, c :: rest =>
      if c.broken || expired i then takeFit expired (i + 1) rest else (some c, rest)

/-- `Pool::acquire`: reuse an idle connection that is still fit, or open a new one. The trace of a
connection starts over with the checkout. -/
def acquire {σ : Type} (srv : Server σ) (g : Group) (input : AcquireInput) (pool : Option Nat)
    (sh : Shelves σ) : Except PoolError (PgBackend σ) × Shelves σ :=
  match input with
  | .refused e => (.error e, sh)
  | .granted expired connect =>
      let (fit, rest) := takeFit expired 0 (sh pool)
      let sh := Function.update sh pool rest
      match fit with
      | some c => (.ok { c with trace := [] }, sh)
      | none =>
          match connect with
          | .ok n =>
              (.ok { server := srv.start n, supportsDiscardAll := g.supportsDiscardAll }, sh)
          | .error e => (.error e, sh)

/-- A backend connection borrowed from the pool. -/
structure Checkout (σ : Type) where
  conn : PgBackend σ
  pool : Option Nat
  discard : Bool := false
deriving DecidableEq

/-- `Checkout::drop`: back on the shelf, unless the connection is unfit or the pool is draining.
`retire` is whether it is draining or the connection expired. -/
def Checkout.drop {σ : Type} (co : Checkout σ) (retire : Bool) (sh : Shelves σ) : Shelves σ :=
  if co.discard || co.conn.broken || retire then sh
  else Function.update sh co.pool (sh co.pool ++ [co.conn])

/-! ## The session -/

/-- Why a session cannot write. -/
inductive ReadOnlyReason where
  | pool
  | user
deriving DecidableEq, Repr

/-- How a session is allowed to behave, beyond what its statements ask for. -/
structure SessionPolicy where
  readOnly : Option ReadOnlyReason := none
  /-- How long the session may sit inside an open transaction; zero means no limit. -/
  idleInTransaction : Nat := 0
deriving DecidableEq, Repr

/-- How a session ended. -/
inductive Exit where
  | closed
  | error (e : ProtoError)
deriving DecidableEq, Repr

/-- A message the client was sent: composed here, or a backend's. -/
inductive Sent where
  | composed (m : Message)
  | relayed (r : Reply)
deriving DecidableEq

def Sent.msg : Sent → Message
  | .composed m => m
  | .relayed r => r.msg

/-- A message handed to a backend for the client: what the client sent, what was written, the state
the server was in, everything the client had sent by then, and the replies. -/
structure Forward (σ : Type) where
  msg : Message
  outgoing : Message
  server : σ
  received : List Message
  replies : List Reply

/-- What happened in a session so far, kept for the proofs. -/
structure Ledger (σ : Type) where
  /-- Calls of `Router::record_result`. -/
  results : List (Route × Bool) := []
  /-- Every message the client sent, and every message it was sent. -/
  received : List Message := []
  sent : List Sent := []
  /-- What was forwarded to the held backend, and what the client got from it, since the checkout
  began or the last `ReadyForQuery` was delivered. -/
  inFlight : List (Forward σ) := []
  delivered : List Reply := []
  /-- `inFlight` and `delivered` of every exchange that reached its `ReadyForQuery`. -/
  history : List (List (Forward σ) × List Reply) := []
  forwarded : List (Forward σ) := []
  /-- Whether an extended-protocol message since the last Sync was answered with an error. -/
  erred : Bool := false
  /-- The message that started the COPY the client is sending data for, by its tag. -/
  copyBy : Option UInt8 := none
  /-- The client's last unnamed statement, if the held backend accepted it during this checkout. -/
  unnamed : Option (Bytes × Bytes) := none

/-- One client session. -/
structure Session (σ : Type) where
  policy : SessionPolicy := {}
  held : Option (Checkout σ) := none
  state : SessionState := { mode := .transaction }
  params : ClientParams := {}
  statements : ClientStatements := {}
  routing : SessionRouting := {}
  currentRoute : Route := .primary .splitDisabled
  /-- Original client messages forwarded since the last sync point. -/
  exchange : List Message := []
  toClient : Nat := 0
  toBackend : Nat := 0
  clientTerminated : Bool := false
  backendClosed : Bool := false
  exchanges : Nat := 0
  checkouts : Nat := 0
  toReplica : Nat := 0
  paramSyncs : Nat := 0
  exit : Option Exit := none
  log : Ledger σ := {}

/-- A session together with the pools and the router it uses. -/
structure Relay (σ : Type) where
  session : Session σ
  shelves : Shelves σ
  cursor : Nat := 0

/-- What the loop waits for. -/
inductive Event where
  | message (m : Message)
  | readError
  | kick
  | idleTimeout
deriving DecidableEq, Repr

/-- Everything the outside world contributes to one turn of the loop. -/
structure Turn where
  event : Event
  now : Nat := 0
  /-- Which replicas are eligible. -/
  eligible : Nat → Bool := fun _ => true
  /-- The routed pool's answer. -/
  acquire : AcquireInput
  /-- The primary pool's answer when it is asked in place of a replica. -/
  fallback : AcquireInput
  /-- After how many relayed messages the client's socket fails. -/
  clientAccepts : Option Nat := none
  /-- Whether a connection given back now is retired. -/
  retire : Bool := false

/-! ## Parameters -/

/-- Everything one client message would do to the session's parameters: only `Query` and `Parse` carry
statement text. -/
def paramSql (msg : Message) : Option Text :=
  if msg.tag = byte 'Q' then some (textBody msg.body)
  else if msg.tag = byte 'P' then parseMessageSql msg.body
  else none

/-- Stage what a statement would do, without believing it yet. -/
def stageParams (params : ClientParams) (state : SessionState) (sql : Text) :
    ClientParams × SessionState :=
  let actions := actionsForSql sql
  if actions.isEmpty then (params, state)
  else if state.inTransaction then (params, state.observe (.mustPin .sessionParameter))
  else
    ((actions.filter fun a => match a with | .pin _ => false | _ => true).foldl
      ClientParams.stage params, state)

/-- Believe, or forget, the staged parameter changes now that the server has answered. -/
def settleParams {σ : Type} (params : ClientParams) (c : PgBackend σ) (errored : Bool) :
    ClientParams × PgBackend σ :=
  if !params.hasPending then (params, c)
  else if errored then (params.discardPending, c)
  else (params.commitPending, c.setAppliedParams params.commitPending.desired)

/-- Settling changes nothing of a connection but the parameters recorded for it. -/
theorem settleParams_conn {σ : Type} (params : ClientParams) (c : PgBackend σ) (errored : Bool) :
    ∃ applied, (settleParams params c errored).2 = c.setAppliedParams applied := by
  unfold settleParams
  split
  · exact ⟨c.appliedParams, rfl⟩
  · split
    · exact ⟨c.appliedParams, rfl⟩
    · exact ⟨_, rfl⟩

/-- A checkout after an exchange that ended as `e`. -/
def Checkout.settled {σ : Type} (co : Checkout σ) (params : ClientParams) (e : ExchangeEnd) :
    Checkout σ :=
  { co with conn := (settleParams params co.conn e.errored).2 }

section Settled

variable {σ : Type} (co : Checkout σ) (params : ClientParams) (e : ExchangeEnd)

@[simp] theorem Checkout.settled_discard : (co.settled params e).discard = co.discard := rfl

@[simp] theorem Checkout.settled_server :
    (co.settled params e).conn.server = co.conn.server := by
  obtain ⟨applied, h⟩ := settleParams_conn params co.conn e.errored
  simp [settled, h, PgBackend.setAppliedParams]

@[simp] theorem Checkout.settled_unread :
    (co.settled params e).conn.unread = co.conn.unread := by
  obtain ⟨applied, h⟩ := settleParams_conn params co.conn e.errored
  simp [settled, h, PgBackend.setAppliedParams]

@[simp] theorem Checkout.settled_broken :
    (co.settled params e).conn.broken = co.conn.broken := by
  obtain ⟨applied, h⟩ := settleParams_conn params co.conn e.errored
  simp [settled, h, PgBackend.setAppliedParams]

@[simp] theorem Checkout.settled_statements :
    (co.settled params e).conn.statements = co.conn.statements := by
  obtain ⟨applied, h⟩ := settleParams_conn params co.conn e.errored
  simp [settled, h, PgBackend.setAppliedParams]

@[simp] theorem Checkout.settled_trace :
    (co.settled params e).conn.trace = co.conn.trace := by
  obtain ⟨applied, h⟩ := settleParams_conn params co.conn e.errored
  simp [settled, h, PgBackend.setAppliedParams]

end Settled

/-! ## What a turn does to the session -/

/-- A message of the extended query protocol that is answered before the next Sync. -/
def isExtended (tag : UInt8) : Bool :=
  tag = byte 'P' || tag = byte 'B' || tag = byte 'D' || tag = byte 'E' || tag = byte 'C'

namespace Ledger

variable {σ : Type}

/-- The client's last unnamed statement after one more message and its replies: a `Parse` replaces it, a
Query and a `Close` end it. -/
def nextUnnamed (l : Ledger σ) (msg : Message) (replies : List Reply) : Option (Bytes × Bytes) :=
  if msg.tag = byte 'P' then
    match ParseParts.decode msg.body with
    | .ok p =>
        if p.name ≠ [] then l.unnamed
        else if replies.any fun x => x.msg.tag = byte '1' then some (p.sql, p.paramTypes)
        else none
    | .error _ => none
  else if msg.tag = byte 'Q' then none
  else if msg.tag = byte 'C' then
    match describeTarget msg.body with
    | .ok (kind, name) => if kind = byte 'S' ∧ name = [] then none else l.unnamed
    | .error _ => none
  else l.unnamed

/-- A message was forwarded. -/
def forward (l : Ledger σ) (msg out : Message) (server : σ) (replies : List Reply) : Ledger σ :=
  { l with
    inFlight := l.inFlight ++ [⟨msg, out, server, l.received, replies⟩]
    forwarded := l.forwarded ++ [⟨msg, out, server, l.received, replies⟩]
    erred := msg.tag ≠ byte 'S' &&
      (l.erred || (isExtended msg.tag && replies.any fun x => x.msg.tag = byte 'E'))
    copyBy := if msg.tag = byte 'c' ∨ msg.tag = byte 'f' then none else l.copyBy
    unnamed := l.nextUnnamed msg replies }

/-- A pump came back. Only a `ReadyForQuery` closes the books of an exchange; the start of a COPY is
noted under the message that asked for it. -/
def exchangeEnd (l : Ledger σ) (copying : Bool) : Ledger σ :=
  if copying then { l with copyBy := l.inFlight.getLast?.map fun f => f.msg.tag }
  else { l with
    inFlight := []
    delivered := []
    copyBy := none
    history := l.history ++ [(l.inFlight, l.delivered)] }

/-- A checkout begins: nothing is in flight on it. -/
def checkout (l : Ledger σ) : Ledger σ :=
  { l with inFlight := [], delivered := [], unnamed := none }

end Ledger

namespace Session

variable {σ : Type}

/-- Write into the ledger. -/
def note (f : Ledger σ → Ledger σ) (s : Session σ) : Session σ := { s with log := f s.log }

/-- Send the client a message composed here; a failed write is ignored. -/
def say (m : Message) (s : Session σ) : Session σ :=
  s.note fun l => { l with sent := l.sent ++ [.composed m] }

/-- Tell the router how the current target did. -/
def record (ok : Bool) (s : Session σ) : Session σ :=
  s.note fun l => { l with results := l.results ++ [(s.currentRoute, ok)] }

/-- A client message was read. -/
def receive (msg : Message) (s : Session σ) : Session σ :=
  s.note fun l => { l with received := l.received ++ [msg] }

/-- Answer a message here, with an error and a `ReadyForQuery`, and do not forward it. -/
def refuse (msg error : Message) (status : TransactionStatus) (s : Session σ) : Session σ :=
  ((s.note fun l => { l with erred := l.erred || isExtended msg.tag }).say error).say
    (.readyForQuery status)

/-- What a message does to the session before a backend is involved. -/
def arrive (msg : Message) (s : Session σ) : Session σ :=
  let state := match classify msg with
    | .pins reason => s.state.observe (.mustPin reason)
    | _ => s.state
  let staged := match paramSql msg with
    | some sql => stageParams s.params state sql
    | none => (s.params, state)
  { s with params := staged.1, state := staged.2, exchange := s.exchange ++ [msg] }

/-- A checkout begins on the current route. -/
def checkOut (s : Session σ) : Session σ :=
  { s with
    checkouts := s.checkouts + 1
    toReplica := s.toReplica + if s.currentRoute.isReplica then 1 else 0
    log := s.log.checkout }

/-- Hold a connection whose parameters are in line with the client's. -/
def hold (co : Checkout σ) (sync : PgBackend.ParamSync) (s : Session σ) : Session σ :=
  { s with held := some co, paramSyncs := s.paramSyncs + if sync = .applied then 1 else 0 }

/-- A message went out on the held connection. -/
def sent (msg out : Message) (statements : ClientStatements) (co : Checkout σ) (server : σ)
    (replies : List Reply) (s : Session σ) : Session σ :=
  { s with
    statements
    held := some co
    toBackend := s.toBackend + out.wireLen
    log := s.log.forward msg out server replies }

/-- The session handed a pump's messages to its client. -/
def deliver (delivered : List Reply) (s : Session σ) : Session σ :=
  { s with
    toClient := s.toClient + (delivered.map fun r => r.msg.wireLen).sum
    log := { s.log with
      sent := s.log.sent ++ delivered.map .relayed
      delivered := s.log.delivered ++ delivered } }

/-- The pump came back with `delivered`. -/
def answered (delivered : List Reply) (s : Session σ) : Session σ :=
  (s.deliver delivered).note (·.exchangeEnd (delivered.any fun d => opensCopy d.msg))

/-- An exchange ended as `e` on the held connection: believe the status byte and settle the
parameters. -/
def settle (co : Checkout σ) (e : ExchangeEnd) (s : Session σ) : Session σ :=
  { s.record true with
    exchanges := s.exchanges + 1
    held := some (co.settled s.params e)
    params := (settleParams s.params co.conn e.errored).1
    state := s.state.observe (if e.status = .idle then .idle else .inTransaction)
    routing := if e.status = .idle then s.routing.endTransaction
      else s.routing.beginTransaction s.currentRoute
    exchange := [] }

/-- The held backend went back; pins survive. -/
def release (s : Session σ) : Session σ := { s with held := none, state := s.state.released }

@[simp] theorem held_arrive (msg : Message) (s : Session σ) : (s.arrive msg).held = s.held := rfl

@[simp] theorem statements_arrive (msg : Message) (s : Session σ) :
    (s.arrive msg).statements = s.statements := rfl

@[simp] theorem log_arrive (msg : Message) (s : Session σ) : (s.arrive msg).log = s.log := rfl

@[simp] theorem held_receive (msg : Message) (s : Session σ) : (s.receive msg).held = s.held := rfl

@[simp] theorem state_receive (msg : Message) (s : Session σ) :
    (s.receive msg).state = s.state := rfl

@[simp] theorem params_receive (msg : Message) (s : Session σ) :
    (s.receive msg).params = s.params := rfl

@[simp] theorem statements_receive (msg : Message) (s : Session σ) :
    (s.receive msg).statements = s.statements := rfl

@[simp] theorem held_refuse (msg error : Message) (status : TransactionStatus) (s : Session σ) :
    (s.refuse msg error status).held = s.held := rfl

@[simp] theorem state_refuse (msg error : Message) (status : TransactionStatus) (s : Session σ) :
    (s.refuse msg error status).state = s.state := rfl

@[simp] theorem params_refuse (msg error : Message) (status : TransactionStatus) (s : Session σ) :
    (s.refuse msg error status).params = s.params := rfl

@[simp] theorem statements_refuse (msg error : Message) (status : TransactionStatus)
    (s : Session σ) : (s.refuse msg error status).statements = s.statements := rfl

/-- A refusal is two messages to the client. -/
theorem log_refuse (msg error : Message) (status : TransactionStatus) (s : Session σ) :
    (s.refuse msg error status).log = { s.log with
      sent := s.log.sent ++ [.composed error] ++ [.composed (.readyForQuery status)]
      erred := s.log.erred || isExtended msg.tag } := rfl

/-- A message may pin the session; whether it is inside a transaction is for the server to say. -/
@[simp] theorem inTransaction_arrive (msg : Message) (s : Session σ) :
    (s.arrive msg).state.inTransaction = s.state.inTransaction := by
  have hstate : ∀ state : SessionState, state.inTransaction = s.state.inTransaction →
      (match paramSql msg with
        | some sql => stageParams s.params state sql
        | none => (s.params, state)).2.inTransaction = s.state.inTransaction := by
    intro state h
    cases paramSql msg with
    | none => exact h
    | some sql =>
        simp only [stageParams]
        split_ifs <;> exact h
  unfold arrive
  cases classify msg <;> exact hstate _ rfl

/-- What the client wants is not changed before the server has answered. -/
@[simp] theorem desired_arrive (msg : Message) (s : Session σ) :
    (s.arrive msg).params.desired = s.params.desired := by
  have hstage : ∀ (actions : List SetAction) (p : ClientParams),
      (actions.foldl ClientParams.stage p).desired = p.desired := by
    intro actions
    induction actions with
    | nil => exact fun p => rfl
    | cons a actions ih =>
        intro p
        rw [List.foldl_cons, ih]
        unfold ClientParams.stage
        split <;> rfl
  simp only [arrive]
  cases paramSql msg with
  | none => rfl
  | some sql =>
      simp only [stageParams]
      split_ifs
      · rfl
      · rfl
      · exact hstage _ _

theorem delta_arrive (msg : Message) (s : Session σ) (applied : ParamMap) :
    (s.arrive msg).params.delta applied = s.params.delta applied := by
  simp only [ClientParams.delta, desired_arrive]

/-- The status byte decides whether the session is inside a transaction. -/
theorem inTransaction_settle (co : Checkout σ) (e : ExchangeEnd) (s : Session σ) :
    (s.settle co e).state.inTransaction = decide (e.status ≠ .idle) := by
  simp only [settle]
  split_ifs with h <;> simp [SessionState.observe, h]

/-- A `ReadyForQuery` empties what is in flight, the start of a COPY does not. -/
theorem inFlight_answered (s : Session σ) (delivered : List Reply) :
    (s.answered delivered).log.inFlight =
      if (delivered.any fun d => opensCopy d.msg) = true then s.log.inFlight else [] := by
  simp only [answered, note, deliver, Ledger.exchangeEnd]
  split_ifs <;> rfl

/-- The start of a COPY is put down to the last message forwarded. -/
theorem copyBy_answered (s : Session σ) (delivered : List Reply) :
    (s.answered delivered).log.copyBy =
      if (delivered.any fun d => opensCopy d.msg) = true
        then s.log.inFlight.getLast?.map fun f => f.msg.tag else none := by
  simp only [answered, note, deliver, Ledger.exchangeEnd]
  split_ifs <;> rfl

@[simp] theorem received_answered (s : Session σ) (delivered : List Reply) :
    (s.answered delivered).log.received = s.log.received := by
  simp only [answered, note, deliver, Ledger.exchangeEnd]
  split <;> rfl

@[simp] theorem unnamed_answered (s : Session σ) (delivered : List Reply) :
    (s.answered delivered).log.unnamed = s.log.unnamed := by
  simp only [answered, note, deliver, Ledger.exchangeEnd]
  split <;> rfl

/-- Only forwarding a message records one as forwarded. -/
@[simp] theorem forwarded_answered (s : Session σ) (delivered : List Reply) :
    (s.answered delivered).log.forwarded = s.log.forwarded := by
  simp only [answered, note, deliver, Ledger.exchangeEnd]
  split <;> rfl

end Session

namespace Relay

variable {σ : Type}

/-- Change the session. -/
def withSession (r : Relay σ) (f : Session σ → Session σ) : Relay σ :=
  { r with session := f r.session }

/-- Give a checkout back to its pool. -/
def giveBack (co : Checkout σ) (retire : Bool) (r : Relay σ) : Relay σ :=
  { r with shelves := co.drop retire r.shelves }

/-- Return from the relay; the backend it holds is dropped. -/
def leave (e : Exit) (retire : Bool) (r : Relay σ) : Relay σ :=
  { r with
    session := { r.session with held := none, exit := some e }
    shelves := match r.session.held with
      | some co => co.drop retire r.shelves
      | none => r.shelves }

end Relay

/-! ## One turn of the loop -/

section Step

variable {σ : Type} (sha256 : Bytes → Bytes) (srv : Server σ) (g : Group)

/-- What became of a client message on its way to the backend. -/
inductive Outgoing (σ : Type) where
  | send (m : Message) (statements : ClientStatements) (conn : PgBackend σ)
  /-- The rewrite itself failed; the connection was not touched. -/
  | refused (e : PreparedError)
  /-- `close_statement` failed in front of a `Parse`. -/
  | closeFailed (e : ProtoError) (statements : ClientStatements) (conn : PgBackend σ)
  /-- `replay_parse` failed. -/
  | replayFailed (e : ProtoError) (statements : ClientStatements) (conn : PgBackend σ)

/-- PostgreSQL rejects a second `Parse` under a name it already holds: free the old one first. -/
def freeName (name : Bytes) (c : PgBackend σ) : Except ProtoError Unit × PgBackend σ :=
  if c.statements.has name then
    match c.closeStatement srv name with
    | (.ok (), c) => (.ok (), { c with statements := c.statements.remove name })
    | (.error e, c) => (.error e, c)
  else (.ok (), c)

/-- Make room for a client's `Parse` of `name` on the way out: free the name, record it and, if
another name had to go, free that one too. A failure of the last step is ignored. -/
def prepareParse (name : Bytes) (c : PgBackend σ) : Except ProtoError Unit × PgBackend σ :=
  match freeName srv name c with
  | (.error e, c) => (.error e, c)
  | (.ok (), c) =>
      match c.statements.insert name with
      | (statements, some evicted) =>
          (.ok (), (PgBackend.closeStatement srv evicted { c with statements }).2)
      | (statements, none) => (.ok (), { c with statements })

/-- The same on the replay path, which records the name and does not look at what it displaced. -/
def prepareReplayedParse (name : Bytes) (c : PgBackend σ) : Except ProtoError Unit × PgBackend σ :=
  match freeName srv name c with
  | (.error e, c) => (.error e, c)
  | (.ok (), c) => (.ok (), { c with statements := (c.statements.insert name).1 })

/-- Rewrite a client message and bring the backend into the state it needs. -/
def outgoing (onParse : Bytes → PgBackend σ → Except ProtoError Unit × PgBackend σ)
    (msg : Message) (statements : ClientStatements) (c : PgBackend σ) : Outgoing σ :=
  match rewritePrepared sha256 msg statements c.statements with
  | .error e => .refused e
  | .ok (.unchanged, statements) => .send msg statements c
  | .ok (.replace m, statements) => .send m statements c
  | .ok (.parse name m, statements) =>
      match onParse name c with
      | (.ok (), c) => .send m statements c
      | (.error e, c) => .closeFailed e statements c
  | .ok (.closeStatement name clientName m, statements) =>
      .send m (statements.forget clientName) { c with statements := c.statements.remove name }
  | .ok (.replayThen parse name m, statements) =>
      match c.replayParse srv parse name with
      | (.ok (), c) => .send m statements c
      | (.error e, c) => .replayFailed e statements c

/-- Write a client message to a connection, with the replies it will get. -/
def writeForClient (m : Message) (c : PgBackend σ) : Option (PgBackend σ × List Reply) :=
  (c.write srv .client m).map fun c' => (c', c'.unread.drop c.unread.length)

/-- The pump came back: settle the session, and give the backend back if nothing keeps it. -/
def exchangeDone (t : Turn) (co : Checkout σ) (e : ExchangeEnd) (r : Relay σ) : Relay σ :=
  let s := r.session.settle co e
  if s.state.isReleasable then
    { r with session := s.release, shelves := (co.settled r.session.params e).drop t.retire r.shelves }
  else { r with session := s }

/-- The client's message could not be served and the session ends with a fatal error. -/
def fatalExit (t : Turn) (code : Text) (text : Text) (e : ProtoError) (r : Relay σ) : Relay σ :=
  (r.withSession (Session.say (.fatal code text))).leave (.error e) t.retire

@[simp] theorem held_fatalExit (t : Turn) (code text : Text) (e : ProtoError) (r : Relay σ) :
    (fatalExit t code text e r).session.held = none := rfl

/-- Write the buffered exchange to a connection. `Except.error` is an early return with `?`. -/
def replayExchange : List Message → Session σ → PgBackend σ →
    Except ProtoError Unit × Session σ × PgBackend σ
  | [], s, c => (.ok (), s, c)
  | msg :: rest, s, c =>
      match outgoing sha256 srv (prepareReplayedParse srv) msg s.statements c with
      | .refused e => (.error (.protocol e.text), s, c)
      | .closeFailed e statements c => (.error e, { s with statements }, c)
      | .replayFailed e statements c => (.error e, { s with statements }, c)
      | .send m statements c =>
          match writeForClient srv m c with
          | none => (.error (.backend "replaying exchange".toList), { s with statements }, c)
          | some (c', replies) =>
              replayExchange rest
                { s with statements, log := s.log.forward msg m c.server replies } c'

/-- A replica died before the client saw anything of the reply: run the buffered exchange on the
primary. -/
def replayOnPrimary (t : Turn) (r : Relay σ) : Relay σ :=
  let r := r.withSession fun s => { s with currentRoute := .primary .noReplicaAvailable }
  let (acquired, shelves) := acquire srv g t.fallback none r.shelves
  let r := { r with shelves }
  match acquired with
  | .error e =>
      let text := match e with
        | .timeout text _ => text
        | .unavailable text => text
        | .connect text => text
      fatalExit t Sqlstate.cannotConnectNow text (.backend text) r
  | .ok conn =>
      let r := r.withSession Session.checkOut
      match conn.syncParams srv r.session.params with
      | (.error e, conn) =>
          fatalExit t Sqlstate.cannotConnectNow e.text e
            (r.giveBack { conn, pool := none, discard := true } t.retire)
      | (.ok (.refused detail), conn) =>
          let text := "cannot apply session parameters: ".toList ++ detail
          fatalExit t Sqlstate.invalidParameterValue text (.backend text)
            (r.giveBack { conn, pool := none } t.retire)
      | (.ok sync, conn) =>
          let r := r.withSession fun s =>
            { s with paramSyncs := s.paramSyncs + if sync = .applied then 1 else 0 }
          match replayExchange sha256 srv r.session.exchange r.session conn with
          | (.error e, s, conn) =>
              -- `?` drops the checkout as it is: nothing marks it for discarding.
              (({ r with session := s } : Relay σ).giveBack { conn, pool := none } t.retire).leave
                (.error e) t.retire
          | (.ok (), s, conn) =>
              let r := { r with session := s }
              if !srv.flush conn.server then
                (r.giveBack { conn, pool := none } t.retire).leave
                  (.error (.backend "replaying exchange".toList)) t.retire
              else
                match conn.pumpUntilReady t.clientAccepts with
                | (some e, delivered, conn) =>
                    exchangeDone t { conn, pool := none } e
                      (r.withSession (Session.answered delivered))
                | (none, delivered, conn) =>
                    let r := (r.withSession fun s =>
                      { s.deliver delivered with backendClosed := true }).giveBack
                        { conn, pool := none, discard := true } t.retire
                    fatalExit t Sqlstate.cannotConnectNow "backend connection lost".toList
                      (.backend "reading from backend".toList) r

/-- Flush and pump the answer through until the server says it is ready again. The connection is given
up for good when that fails. -/
def pumpAnswer (t : Turn) (co : Checkout σ) (r : Relay σ) : Relay σ :=
  let lost := r.withSession fun s => { s with held := none }
  if !srv.flush co.conn.server then
    (lost.giveBack { co with discard := true } t.retire).leave
      (.error (.backend "flushing to backend".toList)) t.retire
  else
    match co.conn.pumpUntilReady t.clientAccepts with
    | (some e, delivered, conn) =>
        exchangeDone t { co with conn } e (r.withSession (Session.answered delivered))
    | (none, delivered, conn) =>
        let r := (lost.withSession fun s => (s.deliver delivered).record false).giveBack
          { co with conn, discard := true } t.retire
        if r.session.currentRoute.isReplica ∧ delivered = [] then replayOnPrimary sha256 srv g t r
        else
          fatalExit t Sqlstate.cannotConnectNow "backend connection lost".toList
            (.backend "reading from backend".toList)
            (r.withSession fun s => { s with backendClosed := true })

/-- Whether a message is followed by a pump. -/
def expectsReply (msg : Message) : Bool :=
  match classify msg with
  | .syncPoint => true
  | .pins _ => msg.tag = byte 'Q'
  | _ => false

/-- Forward the outgoing message on `co`, the checkout the session holds. -/
def forward (t : Turn) (msg out : Message) (statements : ClientStatements) (co : Checkout σ)
    (r : Relay σ) : Relay σ :=
  match writeForClient srv out co.conn with
  | none =>
      let r := (r.withSession fun s => ({ s with statements, held := none }).record false).giveBack
        { co with discard := true } t.retire
      -- On a replica the loop goes on with the next message; this one is only in `exchange`.
      if r.session.currentRoute.isReplica then r
      else
        fatalExit t Sqlstate.cannotConnectNow "backend connection lost".toList
          (.backend "forwarding to backend".toList) r
  | some (conn, replies) =>
      let r := r.withSession
        (Session.sent msg out statements { co with conn } co.conn.server replies)
      if expectsReply msg then pumpAnswer sha256 srv g t { co with conn } r else r

/-- What a client is told when the rewrite of its message fails. -/
def rewriteError (e : PreparedError) : Message :=
  .errorResponse "ERROR".toList Sqlstate.protocolViolation (ProtoError.protocol e.text).text

/-- Rewrite and forward a message on `co`, the checkout the session holds. -/
def dispatch (t : Turn) (msg : Message) (co : Checkout σ) (r : Relay σ) : Relay σ :=
  match outgoing sha256 srv (prepareParse srv) msg r.session.statements co.conn with
  | .refused e => r.withSession (Session.refuse msg (rewriteError e) .failed)
  | .closeFailed e statements conn =>
      (r.withSession fun s =>
        { s with statements, held := some { co with conn, discard := true } }).leave
          (.error e) t.retire
  | .replayFailed e statements conn =>
      fatalExit t Sqlstate.protocolViolation e.text e
        (r.withSession fun s =>
          { s with statements, held := some { co with conn, discard := true } })
  | .send out statements conn => forward sha256 srv g t msg out statements { co with conn } r

/-- Bring a freshly acquired connection in line with the client, then hold it. -/
def install (t : Turn) (conn : PgBackend σ) (r : Relay σ) : Relay σ :=
  let pool := g.poolFor r.session.currentRoute
  let r := r.withSession Session.checkOut
  match conn.syncParams srv r.session.params with
  | (.error e, conn) =>
      fatalExit t Sqlstate.cannotConnectNow e.text e
        ((r.giveBack { conn, pool, discard := true } t.retire).withSession (Session.record false))
  | (.ok (.refused detail), conn) =>
      let text := "cannot apply session parameters: ".toList ++ detail
      fatalExit t Sqlstate.invalidParameterValue text (.backend text)
        (r.giveBack { conn, pool } t.retire)
  | (.ok sync, conn) => r.withSession (Session.hold { conn, pool } sync)

/-- `Router::choose` for the message that needs a backend. -/
def chooseRoute (t : Turn) (msg : Message) (r : Relay σ) : Route × SessionRouting :=
  let s := r.session
  g.decide (messageIntent msg s.statements s.policy.readOnly.isSome) s.routing
    { now := t.now, eligible := t.eligible, cursor := r.cursor }

/-- Ask the pool the route points at and, when a replica cannot be had, the primary's. -/
def acquireRouted (t : Turn) (r : Relay σ) : Except PoolError (PgBackend σ) × Relay σ :=
  let route := r.session.currentRoute
  let (acquired, shelves) := acquire srv g t.acquire (g.poolFor route) r.shelves
  let r := { r with shelves }
  match acquired with
  | .ok conn => (.ok conn, r)
  | .error e =>
      if route.isReplica then
        let r := r.withSession fun s =>
          { s.record false with currentRoute := .primary .noReplicaAvailable }
        let (acquired, shelves) := acquire srv g t.fallback none r.shelves
        (acquired, { r with shelves })
      else (.error e, r)

/-- Borrow a backend if the session does not already have one. The route is decided once per checkout,
from the message that caused it. -/
def borrow (t : Turn) (msg : Message) (r : Relay σ) : Relay σ :=
  match r.session.held with
  | some _ => r
  | none =>
      let (route, routing) := chooseRoute g t msg r
      let r := { (r.withSession fun s => { s with routing, currentRoute := route }) with
        cursor := r.cursor + 1 }
      match acquireRouted srv g t r with
      | (.ok conn, r) => install srv g t conn r
      | (.error e, r) =>
          let (code, text) := match e with
            | .timeout text hint => (Sqlstate.tooManyConnections, text ++ "; ".toList ++ hint)
            | .unavailable text => (Sqlstate.cannotConnectNow, text)
            | .connect text => (Sqlstate.cannotConnectNow, text)
          fatalExit t code text (.backend text) (r.withSession (Session.record false))

/-- What a read-only session is told. -/
def readOnlyDetail (reason : ReadOnlyReason) : Text :=
  match reason with
  | .pool => "pool \"".toList ++ g.name ++
      "\" is read-only; the session cannot be made writable".toList
  | .user => "this user is read-only; the session cannot be made writable".toList

def policyError (reason : ReadOnlyReason) : Message :=
  .errorResponse "ERROR".toList Sqlstate.readOnlySqlTransaction (readOnlyDetail g reason)

/-- Whether the read-only policy refuses a message. -/
def refusedByPolicy (policy : SessionPolicy) (msg : Message) : Option ReadOnlyReason :=
  match policy.readOnly, paramSql msg with
  | some reason, some sql => if defeatsReadOnly sql then some reason else none
  | _, _ => none

/-- After the loop: return the backend, cleaning it only if the session was pinned or inside a
transaction. -/
def finish (t : Turn) (r : Relay σ) : Relay σ :=
  match r.session.held with
  | none => r.leave .closed t.retire
  | some co =>
      if r.session.state.pin.isSome || r.session.state.inTransaction then
        let (cleaned, conn) := co.conn.reset srv
        (r.withSession fun s =>
          { s with held := some { co with conn, discard := co.discard || !cleaned } }).leave
            .closed t.retire
      else r.leave .closed t.retire

/-- A client message. -/
def onMessage (t : Turn) (msg : Message) (r : Relay σ) : Relay σ :=
  let r := r.withSession (Session.receive msg)
  match refusedByPolicy r.session.policy msg with
  | some reason =>
      r.withSession (Session.refuse msg (policyError g reason)
        (if r.session.state.inTransaction then .failed else .idle))
  | none =>
      if classify msg = .terminate then
        finish srv t (r.withSession fun s => { s with clientTerminated := true })
      else
        let r := borrow srv g t msg (r.withSession (Session.arrive msg))
        match r.session.held with
        | some co => dispatch sha256 srv g t msg co r
        | none => r

/-- One turn of the relay's loop. A session that ended takes no more turns. -/
def relayStep (r : Relay σ) (t : Turn) : Relay σ :=
  if r.session.exit.isSome then r
  else
    match t.event with
    | .kick =>
        finish srv t (r.withSession (Session.say (.fatal Sqlstate.adminShutdown
          "terminating connection due to administrator command".toList)))
    | .idleTimeout =>
        if r.session.policy.idleInTransaction ≠ 0 ∧ r.session.state.inTransaction then
          finish srv t (r.withSession (Session.say (.fatal Sqlstate.idleInTransactionSessionTimeout
            "terminating connection due to idle-in-transaction timeout".toList)))
        else r
    | .readError => finish srv t r
    | .message msg => onMessage sha256 srv g t msg r

/-- A session that ended takes no more turns. -/
theorem relayStep_ended {r : Relay σ} (h : r.session.exit ≠ none) (t : Turn) :
    relayStep sha256 srv g r t = r := by
  unfold relayStep
  rw [if_pos (Option.isSome_iff_ne_none.mpr h)]

end Step

/-! ## One session among others -/

/-- One turn of a session, together with what the pools and the router's cursor are when it comes:
others may have changed them since the last one. -/
structure Visit (σ : Type) where
  turn : Turn
  shelves : Shelves σ
  cursor : Nat := 0

/-- What a session meets. -/
def Visit.relay {σ : Type} (v : Visit σ) (s : Session σ) : Relay σ :=
  { session := s, shelves := v.shelves, cursor := v.cursor }

@[simp] theorem Visit.session_relay {σ : Type} (v : Visit σ) (s : Session σ) :
    (v.relay s).session = s := rfl

/-- A session takes a turn. -/
def sessionStep {σ : Type} (sha256 : Bytes → Bytes) (srv : Server σ) (g : Group) (s : Session σ)
    (v : Visit σ) : Session σ :=
  (relayStep sha256 srv g (v.relay s) v.turn).session

theorem sessionStep_ended {σ : Type} {sha256 : Bytes → Bytes} {srv : Server σ} {g : Group}
    {s : Session σ} {v : Visit σ} (h : s.exit ≠ none) : sessionStep sha256 srv g s v = s := by
  rw [sessionStep, relayStep_ended sha256 srv g (r := v.relay s) h]
  rfl

/-! ## Many sessions -/

/-- Any number of sessions sharing the pools and the router. -/
structure World (ι σ : Type) where
  sessions : ι → Session σ
  shelves : Shelves σ
  cursor : Nat := 0

/-- What session `i` sees of the world. -/
def World.relay {ι σ : Type} (w : World ι σ) (i : ι) : Relay σ :=
  { session := w.sessions i, shelves := w.shelves, cursor := w.cursor }

/-- One session of the world takes a turn. -/
def worldStep {ι σ : Type} [DecidableEq ι] (sha256 : Bytes → Bytes) (srv : Server σ) (g : Group)
    (w : World ι σ) (l : ι × Turn) : World ι σ :=
  let r := relayStep sha256 srv g (w.relay l.1) l.2
  { sessions := Function.update w.sessions l.1 r.session, shelves := r.shelves, cursor := r.cursor }

end Havuz
