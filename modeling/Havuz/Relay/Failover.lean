import Havuz.Relay.Queue

/-!
# Starting over on the primary

When a replica is lost before the client got anything of the answer, the relay takes a connection of
the primary and writes the buffered exchange to it. `Replayed` says what that leaves, and
`SessionRule` is the rule of a turn for results about one session, with this path filled in: an
exchange ends in one way (`Session.finished`), wherever it was run.
-/

namespace Havuz

open Lib Sql

variable {σ : Type} {sha256 : Bytes → Bytes} {srv : Server σ} {g : Group}

/-! ## The start of a turn -/

/-- A message may pin the session; nothing else of its state changes before the server has answered. -/
theorem Session.state_arrive (msg : Message) (s : Session σ) :
    ∃ pin, (s.arrive msg).state = { s.state with pin } := by
  have hstage : ∀ (state : SessionState) (sql : Text), (∃ pin, state = { s.state with pin }) →
      ∃ pin, (stageParams s.params state sql).2 = { s.state with pin } := by
    rintro state sql ⟨pin, rfl⟩
    simp only [stageParams]
    split_ifs
    · exact ⟨_, rfl⟩
    · exact ⟨_, rfl⟩
    · exact ⟨_, rfl⟩
  unfold arrive
  cases hsql : paramSql msg with
  | none => cases classify msg <;> exact ⟨_, rfl⟩
  | some sql => cases classify msg <;> exact hstage _ sql ⟨_, rfl⟩

@[simp] theorem Session.checkouts_refuse (msg error : Message) (status : TransactionStatus)
    (s : Session σ) : (s.refuse msg error status).checkouts = s.checkouts := rfl

@[simp] theorem Session.exchange_refuse (msg error : Message) (status : TransactionStatus)
    (s : Session σ) : (s.refuse msg error status).exchange = s.exchange := rfl

@[simp] theorem Session.routing_refuse (msg error : Message) (status : TransactionStatus)
    (s : Session σ) : (s.refuse msg error status).routing = s.routing := rfl

@[simp] theorem Session.currentRoute_refuse (msg error : Message) (status : TransactionStatus)
    (s : Session σ) : (s.refuse msg error status).currentRoute = s.currentRoute := rfl

/-- What getting ready leaves of the session. -/
structure Prepared (s s₁ : Session σ) (msg : Message) : Prop where
  state : s₁.state = ((s.receive msg).arrive msg).state
  policy : s₁.policy = s.policy
  exit : s₁.exit = s.exit
  exchange : s₁.exchange = s.exchange ++ [msg]
  exchanges : s₁.exchanges = s.exchanges
  transactionRoute : s₁.routing.transactionRoute = s.routing.transactionRoute
  /-- The session had a backend, or one was chosen for this message. -/
  target : (s.held ≠ none ∧ s₁.routing = s.routing ∧ s₁.currentRoute = s.currentRoute ∧
      s₁.checkouts = s.checkouts) ∨
    (s.held = none ∧ s₁.checkouts = s.checkouts + 1)

/-- The message may have pinned the session. -/
theorem Prepared.pinned {s s₁ : Session σ} {msg : Message} (h : Prepared s s₁ msg) :
    ∃ pin, s₁.state = { s.state with pin } := by
  obtain ⟨pin, harrive⟩ := Session.state_arrive msg (s.receive msg)
  exact ⟨pin, h.state.trans harrive⟩

/-- Choosing a target notes a write at most. -/
theorem transactionRoute_decide (g : Group) (intent : RouteIntent) (s : SessionRouting)
    (input : RouterInput) : (g.decide intent s input).2.transactionRoute = s.transactionRoute := by
  have hnoted : (if intent = .write then s.noteWrite input.now else s).transactionRoute =
      s.transactionRoute := by
    split <;> rfl
  unfold Group.decide
  cases hroute : s.transactionRoute with
  | some route => cases route <;> exact hnoted.trans hroute
  | none =>
      dsimp only
      by_cases hoff : (!g.readWriteSplit) = true ∨ g.weights = []
      · rw [if_pos hoff]
        exact hnoted.trans hroute
      rw [if_neg hoff]
      by_cases hwrite : intent = .write
      · rw [if_pos hwrite]
        exact hnoted.trans hroute
      rw [if_neg hwrite]
      by_cases hsticky : s.isSticky input.now g.stickyAfterWrite = true
      · rw [if_pos hsticky]
        exact hroute
      rw [if_neg hsticky]
      cases g.pickReplica input <;> exact hroute

theorem Ready.prepared {r : Relay σ} {t : Turn} {msg : Message} {s : Session σ} {co : Checkout σ}
    (h : Ready srv g r t msg s co) : Prepared r.session s msg := by
  cases h with
  | held h => exact ⟨rfl, rfl, rfl, rfl, rfl, rfl, .inl ⟨by simp [h], rfl, rfl, rfl⟩⟩
  | borrowed hnone hs =>
      cases hs with
      | chosen =>
          exact ⟨rfl, rfl, rfl, rfl, rfl, transactionRoute_decide _ _ _ _, .inr ⟨hnone, rfl⟩⟩
      | fellBack =>
          exact ⟨rfl, rfl, rfl, rfl, rfl, transactionRoute_decide _ _ _ _, .inr ⟨hnone, rfl⟩⟩

/-- Getting ready closes no exchange. -/
theorem Ready.history_eq {r : Relay σ} {t : Turn} {msg : Message} {s : Session σ} {co : Checkout σ}
    (h : Ready srv g r t msg s co) : s.log.history = r.session.log.history := by
  obtain ⟨results, ⟨-, hlog⟩ | ⟨-, hlog⟩⟩ := h.log_eq
  · rw [hlog]
    rfl
  · rw [hlog]
    rfl

/-- The route of a backend that was borrowed for this message. -/
theorem Ready.route_borrowed {r : Relay σ} {t : Turn} {msg : Message} {s : Session σ}
    {co : Checkout σ} (h : Ready srv g r t msg s co) (hnone : r.session.held = none) :
    s.routing = (chooseRoute g t msg r).2 ∧
      (s.currentRoute = (chooseRoute g t msg r).1 ∨ s.currentRoute = .primary .noReplicaAvailable) := by
  cases h with
  | held h =>
      rw [hnone] at h
      cases h
  | borrowed _ hs =>
      cases hs with
      | chosen => exact ⟨rfl, .inl rfl⟩
      | fellBack => exact ⟨rfl, .inr rfl⟩

/-! ## The end of an exchange -/

/-- The session after the answer was read: `co` is given back if nothing keeps it. -/
def Session.finished (s : Session σ) (co : Checkout σ) (e : ExchangeEnd) : Session σ :=
  if (s.settle co e).state.isReleasable then (s.settle co e).release else s.settle co e

theorem session_exchangeDone (t : Turn) (co : Checkout σ) (e : ExchangeEnd) (r : Relay σ) :
    (exchangeDone t co e r).session = r.session.finished co e := by
  unfold exchangeDone Session.finished
  dsimp only
  split <;> rfl

section Finished

variable (s : Session σ) (co : Checkout σ) (e : ExchangeEnd)

/-- A session that keeps its backend after an exchange is settled, one that does not is released. -/
theorem Session.finished_cases :
    (s.finished co e = s.settle co e ∧ (s.settle co e).state.isReleasable = false) ∨
      (s.finished co e = (s.settle co e).release ∧ (s.settle co e).state.isReleasable = true) := by
  unfold finished
  cases h : (s.settle co e).state.isReleasable with
  | true => exact .inr ⟨if_pos rfl, rfl⟩
  | false => exact .inl ⟨if_neg (by simp), rfl⟩

@[simp] theorem Session.currentRoute_finished :
    (s.finished co e).currentRoute = s.currentRoute := by
  obtain ⟨h, -⟩ | ⟨h, -⟩ := s.finished_cases co e <;> rw [h] <;> rfl

@[simp] theorem Session.policy_finished : (s.finished co e).policy = s.policy := by
  obtain ⟨h, -⟩ | ⟨h, -⟩ := s.finished_cases co e <;> rw [h] <;> rfl

@[simp] theorem Session.exchange_finished : (s.finished co e).exchange = [] := by
  obtain ⟨h, -⟩ | ⟨h, -⟩ := s.finished_cases co e <;> rw [h] <;> rfl

@[simp] theorem Session.exchanges_finished : (s.finished co e).exchanges = s.exchanges + 1 := by
  obtain ⟨h, -⟩ | ⟨h, -⟩ := s.finished_cases co e <;> rw [h] <;> rfl

@[simp] theorem Session.checkouts_finished : (s.finished co e).checkouts = s.checkouts := by
  obtain ⟨h, -⟩ | ⟨h, -⟩ := s.finished_cases co e <;> rw [h] <;> rfl

@[simp] theorem Session.statements_finished : (s.finished co e).statements = s.statements := by
  obtain ⟨h, -⟩ | ⟨h, -⟩ := s.finished_cases co e <;> rw [h] <;> rfl

/-- Nothing but the record of results is added to the books. -/
theorem Session.log_finished :
    (s.finished co e).log = { s.log with results := s.log.results ++ [(s.currentRoute, true)] } := by
  obtain ⟨h, -⟩ | ⟨h, -⟩ := s.finished_cases co e <;> rw [h] <;> rfl

/-- The status byte decides where the session stands. -/
@[simp] theorem Session.inTransaction_finished :
    (s.finished co e).state.inTransaction = decide (e.status ≠ .idle) := by
  obtain ⟨h, -⟩ | ⟨h, hrel⟩ := s.finished_cases co e
  · rw [h, Session.inTransaction_settle]
  · rw [h, ← Session.inTransaction_settle co e s, (SessionState.isReleasable_iff.mp hrel).2.2.2]
    rfl

theorem Session.routing_finished : (s.finished co e).routing = (s.settle co e).routing := by
  obtain ⟨h, -⟩ | ⟨h, -⟩ := s.finished_cases co e
  · rw [h]
  · rw [h]
    rfl

theorem Session.transactionRoute_finished :
    (s.finished co e).routing.transactionRoute =
      if e.status = .idle then none else some s.currentRoute := by
  rw [routing_finished]
  simp only [settle]
  split
  · rfl
  · rfl

theorem Session.lastWrite_finished :
    (s.finished co e).routing.lastWrite = s.routing.lastWrite := by
  rw [routing_finished]
  simp only [settle]
  split
  · rfl
  · rfl

/-- The exchange says whether the session is inside a transaction; nothing else of its state changes. -/
theorem Session.state_finished : ∃ inTransaction,
    (s.finished co e).state = { s.state with inTransaction } := by
  obtain ⟨h, -⟩ | ⟨h, -⟩ := s.finished_cases co e <;> rw [h]
  · simp only [settle]
    split
    · exact ⟨_, rfl⟩
    · exact ⟨_, rfl⟩
  · simp only [release, settle]
    split
    · exact ⟨_, rfl⟩
    · exact ⟨_, rfl⟩

/-- A session that keeps its backend is inside a transaction or pinned, or of another mode. -/
theorem Session.kept_of_held (hheld : (s.finished co e).held ≠ none) (hmode : s.state.mode = .transaction)
    (hfit : s.state.broken = false) (hpin : s.state.pin = none) :
    (s.finished co e).state.inTransaction = true := by
  obtain ⟨inTransaction, hstate⟩ := s.state_finished co e
  obtain ⟨h, hrel⟩ | ⟨h, -⟩ := s.finished_cases co e
  · rw [← h] at hrel
    by_contra hidle
    rw [SessionState.isReleasable_iff.mpr ⟨by rw [hstate, hfit], by rw [hstate, hpin],
      by rw [hstate, hmode]; simp, by simpa using hidle⟩] at hrel
    cases hrel
  · rw [h] at hheld
    exact absurd rfl hheld

/-- A session inside a transaction keeps its backend. -/
theorem Session.held_finished (h : (s.finished co e).state.inTransaction = true) :
    (s.finished co e).held ≠ none := by
  obtain ⟨hs, -⟩ | ⟨hs, hrel⟩ := s.finished_cases co e
  · rw [hs]
    exact Option.some_ne_none _
  · rw [Session.inTransaction_finished, ← Session.inTransaction_settle co e s,
      (SessionState.isReleasable_iff.mp hrel).2.2.2] at h
    cases h

end Finished

/-! ## The books of an exchange -/

/-- Getting ready sends the client nothing. -/
theorem Ready.sent_eq {r : Relay σ} {t : Turn} {msg : Message} {s : Session σ} {co : Checkout σ}
    (h : Ready srv g r t msg s co) : s.log.sent = r.session.log.sent := by
  obtain ⟨results, ⟨-, hlog⟩ | ⟨-, hlog⟩⟩ := h.log_eq
  · rw [hlog]
    rfl
  · rw [hlog]
    rfl

/-- What is in flight on a backend that is held, and what came back so far, stays. -/
theorem Ready.books_held {r : Relay σ} {t : Turn} {msg : Message} {s : Session σ} {co : Checkout σ}
    (h : Ready srv g r t msg s co) (hheld : r.session.held ≠ none) :
    s.log.inFlight = r.session.log.inFlight ∧ s.log.delivered = r.session.log.delivered := by
  obtain ⟨results, ⟨-, hlog⟩ | ⟨hnone, -⟩⟩ := h.log_eq
  · rw [hlog]
    exact ⟨rfl, rfl⟩
  · exact absurd hnone hheld

/-- Nothing is in flight on a backend that was just borrowed. -/
theorem Ready.books_none {r : Relay σ} {t : Turn} {msg : Message} {s : Session σ} {co : Checkout σ}
    (h : Ready srv g r t msg s co) (hheld : r.session.held = none) :
    s.log.inFlight = [] ∧ s.log.delivered = [] := by
  obtain ⟨results, ⟨hsome, -⟩ | ⟨-, hlog⟩⟩ := h.log_eq
  · rw [hheld] at hsome
    cases hsome
  · rw [hlog]
    exact ⟨rfl, rfl⟩

section Books

variable (s : Session σ) (delivered : List Reply) (co : Checkout σ) (e : ExchangeEnd)

theorem Session.sent_finished : ((s.answered delivered).finished co e).log.sent =
    s.log.sent ++ delivered.map .relayed := by
  rw [Session.log_finished]
  simp only [Session.answered, Session.note, Session.deliver, Ledger.exchangeEnd]
  split
  · rfl
  · rfl

variable {delivered}

/-- The start of a COPY leaves the books of the exchange open. -/
theorem Session.books_copy (hcopy : (delivered.any fun d => opensCopy d.msg) = true) :
    ((s.answered delivered).finished co e).log.inFlight = s.log.inFlight ∧
      ((s.answered delivered).finished co e).log.history = s.log.history := by
  rw [Session.log_finished]
  simp only [Session.answered, Session.note, Session.deliver, Ledger.exchangeEnd, hcopy, if_true, and_self]

/-- A `ReadyForQuery` closes them. -/
theorem Session.books_ready (hcopy : (delivered.any fun d => opensCopy d.msg) = false) :
    ((s.answered delivered).finished co e).log.inFlight = [] ∧
      ((s.answered delivered).finished co e).log.delivered = [] ∧
      ((s.answered delivered).finished co e).log.history =
        s.log.history ++ [(s.log.inFlight, s.log.delivered ++ delivered)] := by
  rw [Session.log_finished]
  simp only [Session.answered, Session.note, Session.deliver, Ledger.exchangeEnd, hcopy,
    Bool.false_eq_true, if_false, and_self]

end Books

/-- A `ReadyForQuery` is not the start of a COPY. -/
theorem opensCopy_of_status {m : Message} {status : TransactionStatus}
    (h : m.transactionStatus = some status) : opensCopy m = false := by
  unfold Message.transactionStatus at h
  split at h
  case isTrue htag =>
    simp only [opensCopy, htag]
    decide
  case isFalse => cases h

/-- The start of a COPY counts as a transaction. -/
theorem pumpUntilReady_copy {c c' : PgBackend σ} {accepts : Option ℕ} {e : ExchangeEnd}
    {delivered : List Reply} (h : c.pumpUntilReady accepts = (some e, delivered, c'))
    (hcopy : (delivered.any fun d => opensCopy d.msg) = true) : e.status = .inTransaction := by
  obtain ⟨front, x, -, rfl, hfront, hx | ⟨-, hx⟩, -⟩ := pumpUntilReady_some h
  · obtain ⟨y, hy, hyCopy⟩ := List.any_eq_true.mp hcopy
    rcases List.mem_append.mp hy with hy | hy
    · rw [(hfront y hy).2] at hyCopy
      cases hyCopy
    · cases List.mem_singleton.mp hy
      rw [opensCopy_of_status hx] at hyCopy
      cases hyCopy
  · exact hx

/-! ## The replay -/

/-- What writing the buffered exchange to a new connection makes of the session: it knows more
statements, and the exchange is in flight on a checkout of its own. -/
structure Replayed (s s' : Session σ) : Prop where
  session : ∃ statements toReplica paramSyncs log, s' = { s with
    currentRoute := .primary .noReplicaAvailable
    checkouts := s.checkouts + 1
    statements, toReplica, paramSyncs, log }
  inFlight : s'.log.inFlight.map Forward.msg = s.exchange
  delivered : s'.log.delivered = []
  history : s'.log.history = s.log.history
  received : s'.log.received = s.log.received
  sent : s'.log.sent = s.log.sent

theorem replayExchange_ok {msgs : List Message} {s s' : Session σ} {c c' : PgBackend σ}
    (h : replayExchange sha256 srv msgs s c = (.ok (), s', c')) :
    (∃ statements log, s' = { s with statements, log }) ∧
      s'.log.inFlight.map Forward.msg = s.log.inFlight.map Forward.msg ++ msgs ∧
      s'.log.delivered = s.log.delivered ∧ s'.log.history = s.log.history ∧
      s'.log.received = s.log.received ∧ s'.log.sent = s.log.sent := by
  induction msgs generalizing s c with
  | nil =>
      cases h
      exact ⟨⟨_, _, rfl⟩, by simp, rfl, rfl, rfl, rfl⟩
  | cons msg rest ih =>
      rw [replayExchange] at h
      split at h
      case h_1 => cases h
      case h_2 => cases h
      case h_3 => cases h
      case h_4 m statements c₁ hout =>
        split at h
        case h_1 => cases h
        case h_2 c₂ replies hwritten =>
          obtain ⟨⟨st, log, hs⟩, hin, hdel, hhist, hrec, hsent⟩ := ih h
          refine ⟨⟨st, log, hs⟩, ?_, hdel, hhist, hrec, hsent⟩
          rw [hin]
          simp [Ledger.forward]

theorem exit_fatalExit (t : Turn) (code text : Text) (e : ProtoError) (r : Relay σ) :
    (fatalExit t code text e r).session.exit = some (.error e) := rfl

theorem exit_leave (e : Exit) (retire : Bool) (r : Relay σ) :
    (r.leave e retire).session.exit = some e := rfl

/-- A session that survives the replay has had its exchange answered by the primary. -/
theorem replayOnPrimary_cases {t : Turn} {r : Relay σ}
    (hexit : (replayOnPrimary sha256 srv g t r).session.exit = none) :
    ∃ (s : Session σ) (delivered : List Reply) (co : Checkout σ) (e : ExchangeEnd) (c c' : PgBackend σ),
      Replayed r.session s ∧
      c.pumpUntilReady t.clientAccepts = (some e, delivered, c') ∧
      (replayOnPrimary sha256 srv g t r).session = (s.answered delivered).finished co e := by
  revert hexit
  unfold replayOnPrimary
  simp only [Relay.withSession]
  split
  case h_1 =>
    intro hexit
    rw [exit_fatalExit] at hexit
    cases hexit
  case h_2 conn hacq =>
    split
    case h_1 =>
      intro hexit
      rw [exit_fatalExit] at hexit
      cases hexit
    case h_2 =>
      intro hexit
      rw [exit_fatalExit] at hexit
      cases hexit
    case h_3 sync conn₁ hok hsync =>
      split
      case h_1 =>
        intro hexit
        rw [exit_leave] at hexit
        cases hexit
      case h_2 s₁ conn₂ hreplay =>
        obtain ⟨⟨statements, log, hs⟩, hin, hdel, hhist, hrec, hsent⟩ := replayExchange_ok hreplay
        have hreplayed : Replayed r.session s₁ :=
          ⟨⟨statements, _, _, log, hs⟩, by simpa [Session.checkOut, Ledger.checkout] using hin, hdel, hhist,
            hrec, hsent⟩
        split
        case isTrue =>
          intro hexit
          rw [exit_leave] at hexit
          cases hexit
        case isFalse =>
          split
          case h_1 e delivered conn₃ hpump =>
            intro _
            exact ⟨s₁, delivered, _, e, _, _, hreplayed, hpump, session_exchangeDone _ _ _ _⟩
          case h_2 =>
            intro hexit
            rw [exit_fatalExit] at hexit
            cases hexit

/-! ## A rule for one session -/

/-- The session when its replica was lost before anything of the answer was delivered. -/
abbrev Session.lost (s : Session σ) (msg out : Message) (st : ClientStatements) (co : Checkout σ)
    (before after : PgBackend σ) (replies : List Reply) : Session σ :=
  Session.record false
    (Session.deliver [] { s.afterSend msg out st co before after replies with held := none })

/-- What has to be shown at the ends of the turn `t` from `r` about the session alone. -/
structure SessionRule (sha256 : Bytes → Bytes) (srv : Server σ) (g : Group) (r : Relay σ) (t : Turn)
    (P : Session σ → Prop) : Prop where
  idle : t.event = .idleTimeout → P r.session
  policy : ∀ msg reason, t.event = .message msg →
    refusedByPolicy r.session.policy msg = some reason →
    P ((r.session.receive msg).refuse msg (policyError g reason)
      (if r.session.state.inTransaction then .failed else .idle))
  refused : ∀ msg s co e, Forwards r t msg → Ready srv g r t msg s co →
    rewritePrepared sha256 msg s.statements co.conn.statements = .error e →
    P (s.refuse msg (rewriteError e) .failed)
  dropped : ∀ msg s co out st c, Forwards r t msg → Ready srv g r t msg s co →
    outgoing sha256 srv (prepareParse srv) msg s.statements co.conn = .send out st c →
    srv.write c.server out = none → s.currentRoute.isReplica = true →
    P (Session.record false { s with statements := st, held := none })
  pipelined : ∀ msg s co out st c c' replies,
    Sends sha256 srv g r t msg s co out st c c' replies → expectsReply msg = false →
    P (s.afterSend msg out st co c c' replies)
  answered : ∀ msg s co out st c c' replies e delivered c'',
    Sends sha256 srv g r t msg s co out st c c' replies → expectsReply msg = true →
    c'.pumpUntilReady t.clientAccepts = (some e, delivered, c'') →
    P (((s.afterSend msg out st co c c' replies).answered delivered).finished { co with conn := c'' } e)
  replayed : ∀ msg s co out st c c' replies c'' s₁ delivered co' e (c₁ c₂ : PgBackend σ),
    Sends sha256 srv g r t msg s co out st c c' replies → expectsReply msg = true →
    c'.pumpUntilReady t.clientAccepts = (none, [], c'') → s.currentRoute.isReplica = true →
    Replayed (s.lost msg out st co c c' replies) s₁ →
    c₁.pumpUntilReady t.clientAccepts = (some e, delivered, c₂) →
    P ((s₁.answered delivered).finished co' e)

theorem SessionRule.turnRule {r : Relay σ} {t : Turn} {P : Session σ → Prop}
    (rule : SessionRule sha256 srv g r t P) :
    TurnRule sha256 srv g r t (fun _ => True) (fun _ => True) P := by
  constructor
  case idle => exact fun hevent _ => rule.idle hevent
  case leaves => exact fun _ _ _ _ _ _ _ => trivial
  case resets => exact fun _ _ _ _ _ _ _ => trivial
  case policy => exact rule.policy
  case syncRefused => exact fun _ _ _ _ _ _ _ _ => trivial
  case refused => exact rule.refused
  case dropped => exact rule.dropped
  case sent => exact fun _ _ _ _ _ _ _ _ _ => trivial
  case pipelined => exact rule.pipelined
  case kept =>
    intro msg s co out st c c' replies e delivered c'' hsends hreply hpump hkeeps
    have hdone := rule.answered msg s co out st c c' replies e delivered c'' hsends hreply hpump
    rwa [Session.finished, if_neg (by simp [hkeeps])] at hdone
  case released =>
    intro msg s co out st c c' replies e delivered c'' hsends hreply hpump hreleases
    have hdone := rule.answered msg s co out st c c' replies e delivered c'' hsends hreply hpump
    rw [Session.finished, if_pos hreleases] at hdone
    exact ⟨hdone, fun _ _ => trivial⟩
  case restarted =>
    intro msg s co out st c c' replies c'' r' hsends hreply hpump hroute hsession _
    refine ⟨fun _ _ _ => .inr trivial, fun _ _ => .inr trivial, fun hexit => ?_⟩
    obtain ⟨s₁, delivered, co', e, c₁, c₂, hreplayed, hpump', hdone⟩ := replayOnPrimary_cases hexit
    rw [hdone]
    rw [hsession] at hreplayed
    exact rule.replayed msg s co out st c c' replies c'' s₁ delivered co' e c₁ c₂ hsends hreply hpump
      hroute hreplayed hpump'

/-- **The rule.** -/
theorem relayStep_session {r : Relay σ} {t : Turn} {P : Session σ → Prop}
    (rule : SessionRule sha256 srv g r t P)
    (hexit : (relayStep sha256 srv g r t).session.exit = none) :
    P (relayStep sha256 srv g r t).session :=
  (relayStep_kept rule.turnRule).session hexit

/-! ## Where a message goes -/

variable (sha256 srv g) in
/-- The client message a turn hands to a backend, and the target that backend belongs to. -/
def handsOver (r : Relay σ) (t : Turn) : Option (Message × Route) :=
  match t.event with
  | .message msg =>
      if r.session.exit.isSome ∨ (refusedByPolicy r.session.policy msg).isSome ∨
          classify msg = .terminate then none
      else
        let r := borrow srv g t msg (r.withSession fun s => (s.receive msg).arrive msg)
        match r.session.held with
        | none => none
        | some co =>
            match outgoing sha256 srv (prepareParse srv) msg r.session.statements co.conn with
            | .send out _ conn =>
                if (writeForClient srv out conn).isSome then some (msg, r.session.currentRoute) else none
            | _ => none
  | _ => none

theorem install_ready {r r' : Relay σ} {t : Turn} {msg : Message} {c : PgBackend σ} {co : Checkout σ}
    (hheld : r.session.held = none) (hrouted : Routed g r t msg r'.session)
    (hoffer : Offered srv g r.shelves c) (h : (install srv g t c r').session.held = some co) :
    Ready srv g r t msg (install srv g t c r').session co := by
  have hparams : r'.session.checkOut.params = ((r.session.receive msg).arrive msg).params := hrouted.spec.1
  revert h
  unfold install
  simp only [Relay.withSession]
  split
  case h_1 => exact fun h => (by cases h)
  case h_2 => exact fun h => (by cases h)
  case h_3 sync conn hok hsync =>
    intro h
    cases h
    rw [hparams] at hsync
    exact .borrowed hheld hrouted hoffer hsync hok

theorem borrow_ready {r : Relay σ} {t : Turn} {msg : Message} {co : Checkout σ}
    (h : (borrow srv g t msg (r.withSession fun s => (s.receive msg).arrive msg)).session.held = some co) :
    Ready srv g r t msg
      (borrow srv g t msg (r.withSession fun s => (s.receive msg).arrive msg)).session co := by
  revert h
  unfold borrow
  split
  case h_1 co' hheld => exact fun h => .held h
  case h_2 hnone =>
    have hheld : r.session.held = none := hnone
    dsimp only
    generalize hr₀ : ({ session := _, shelves := _, cursor := _ } : Relay σ) = r₀
    cases hacq : acquireRouted srv g t r₀ with
    | mk acquired r₁ =>
        subst hr₀
        obtain ⟨hs, -, hoff⟩ := acquireRouted_spec hacq
        have hrouted : Routed g r t msg r₁.session := by
          rcases hs with hs | hs
          · rw [hs]
            exact .chosen
          · rw [hs]
            exact .fellBack
        cases acquired with
        | ok conn => exact install_ready hheld hrouted (hoff conn rfl)
        | error e => exact fun h => (by cases h)

/-- A message that is handed over was ready to go. -/
theorem handsOver_ready {r : Relay σ} {t : Turn} {msg : Message} {route : Route}
    (h : handsOver sha256 srv g r t = some (msg, route)) :
    r.session.exit = none ∧ ∃ s co, Forwards r t msg ∧ Ready srv g r t msg s co ∧
      s.currentRoute = route := by
  unfold handsOver at h
  split at h
  case h_2 => cases h
  case h_1 msg' hevent =>
    split at h
    case isTrue => cases h
    case isFalse hgoes =>
      simp only [not_or, Bool.not_eq_true, Option.isSome_eq_false_iff, Option.isNone_iff_eq_none]
        at hgoes
      simp only at h
      split at h
      case h_1 => cases h
      case h_2 co hco =>
        split at h
        case h_2 => cases h
        case h_1 out st conn hout =>
          split at h
          case isFalse => cases h
          case isTrue =>
            cases h
            exact ⟨hgoes.1, _, co, ⟨hevent, hgoes.2.1, hgoes.2.2⟩, borrow_ready hco, rfl⟩

/-! ## How a turn ends a session -/

/-- The last message the client was sent is an error composed here. -/
def Session.Told (s : Session σ) : Prop :=
  ∃ m, s.log.sent.getLast? = some (.composed m) ∧ m.tag = byte 'E'

theorem told_fatalExit (t : Turn) (code text : Text) (e : ProtoError) (r : Relay σ) :
    (fatalExit t code text e r).session.Told :=
  ⟨.fatal code text, by simp [fatalExit, Relay.leave, Relay.withSession, Session.say, Session.note], rfl⟩

variable (sha256 srv g) in
/-- How a turn that is ready to forward `msg` from the session `s` on `co` can go. -/
inductive TurnEnd (r : Relay σ) (t : Turn) (msg : Message) (s : Session σ) (co : Checkout σ) :
    Session σ → Prop
  /-- The session goes on, or the client is told. -/
  | said {s' : Session σ} (hcheckouts : s'.checkouts = s.checkouts) (htold : s'.exit ≠ none → s'.Told) :
      TurnEnd r t msg s co s'
  | closeFailed {s' : Session σ} {e : ProtoError} {st : ClientStatements} {c : PgBackend σ}
      (hcheckouts : s'.checkouts = s.checkouts)
      (hout : outgoing sha256 srv (prepareParse srv) msg s.statements co.conn = .closeFailed e st c) :
      TurnEnd r t msg s co s'
  | flushFailed {s' : Session σ} {out : Message} {st : ClientStatements} {c c' : PgBackend σ}
      {replies : List Reply} (hcheckouts : s'.checkouts = s.checkouts)
      (hsends : Sends sha256 srv g r t msg s co out st c c' replies) (hreply : expectsReply msg = true)
      (hflush : srv.flush c'.server = false) : TurnEnd r t msg s co s'
  /-- The replica was lost before the client got anything of the answer. -/
  | restarted {s' : Session σ} {r' : Relay σ} {out : Message} {st : ClientStatements} {c c' c'' : PgBackend σ}
      {replies : List Reply} (hsends : Sends sha256 srv g r t msg s co out st c c' replies)
      (hreply : expectsReply msg = true)
      (hpump : c'.pumpUntilReady t.clientAccepts = (none, [], c''))
      (hroute : s.currentRoute.isReplica = true)
      (hsession : r'.session = s.lost msg out st co c c' replies)
      (hshelves : ∀ p c, c ∈ r'.shelves p → c ∈ r.shelves p)
      (hdone : s' = (replayOnPrimary sha256 srv g t r').session) : TurnEnd r t msg s co s'

section TurnEnd

variable {r r' : Relay σ} {t : Turn} {msg out : Message} {s : Session σ} {co : Checkout σ}
  {st : ClientStatements} {c c' : PgBackend σ} {replies : List Reply}

theorem TurnEnd.of_fatalExit {code text : Text} {e : ProtoError}
    (h : r'.session.checkouts = s.checkouts) :
    TurnEnd sha256 srv g r t msg s co (fatalExit t code text e r').session :=
  .said h fun _ => told_fatalExit t code text e r'

theorem exit_finished (s : Session σ) (co : Checkout σ) (e : ExchangeEnd) :
    (s.finished co e).exit = s.exit := by
  obtain ⟨h, -⟩ | ⟨h, -⟩ := s.finished_cases co e <;> rw [h] <;> rfl

theorem pumpAnswer_ends (hsends : Sends sha256 srv g r t msg s co out st c c' replies)
    (hreply : expectsReply msg = true) (hexit : s.exit = none)
    (hsession : r'.session = s.afterSend msg out st co c c' replies)
    (hsh : ∀ p c, c ∈ r'.shelves p → c ∈ r.shelves p) :
    TurnEnd sha256 srv g r t msg s co (pumpAnswer sha256 srv g t { co with conn := c' } r').session := by
  have hsame : r'.session.checkouts = s.checkouts := by rw [hsession]; rfl
  unfold pumpAnswer
  simp only
  split
  case isTrue hflush => exact .flushFailed hsame hsends hreply (by simpa using hflush)
  case isFalse =>
    split
    case h_1 e delivered conn hpump =>
      rw [session_exchangeDone]
      refine .said ?_ fun hended => absurd ?_ hended
      · rw [Session.checkouts_finished]
        exact hsame
      · rw [exit_finished]
        simp only [Relay.withSession, hsession]
        exact hexit
    case h_2 delivered conn hpump =>
      split
      case isTrue hreplay =>
        obtain ⟨hroute, rfl⟩ := hreplay
        refine .restarted hsends hreply hpump ?_ ?_ (fun p c hc => ?_) rfl
        · simp only [Relay.giveBack, Relay.withSession, hsession] at hroute
          exact hroute
        · simp only [Relay.giveBack, Relay.withSession, hsession]
        · rcases Relay.mem_giveBack hc with hc | ⟨-, hd, -⟩
          · exact hsh p c hc
          · cases hd
      case isFalse => exact .of_fatalExit hsame

theorem forward_ends (hfwd : Forwards r t msg) (hready : Ready srv g r t msg s co)
    (hout : outgoing sha256 srv (prepareParse srv) msg s.statements co.conn = .send out st c)
    (hexit : s.exit = none) (hsession : r'.session = s) (hsh : ∀ p c, c ∈ r'.shelves p → c ∈ r.shelves p) :
    TurnEnd sha256 srv g r t msg s co (forward sha256 srv g t msg out st { co with conn := c } r').session := by
  subst hsession
  unfold forward
  split
  case h_1 =>
    dsimp only
    split
    · exact .said rfl fun hended => absurd hexit hended
    · exact .of_fatalExit rfl
  case h_2 conn replies hwrite =>
    dsimp only
    split
    case isTrue hreply => exact pumpAnswer_ends ⟨hfwd, hready, hout, hwrite⟩ hreply hexit rfl hsh
    case isFalse => exact .said rfl fun hended => absurd hexit hended

theorem dispatch_ends (hfwd : Forwards r t msg) (hready : Ready srv g r t msg s co)
    (hexit : s.exit = none) (hsession : r'.session = s) (hsh : ∀ p c, c ∈ r'.shelves p → c ∈ r.shelves p) :
    TurnEnd sha256 srv g r t msg s co (dispatch sha256 srv g t msg co r').session := by
  subst hsession
  unfold dispatch
  split
  case h_1 => exact .said rfl fun hended => absurd hexit hended
  case h_2 e st c hout => exact .closeFailed rfl hout
  case h_3 => exact .of_fatalExit rfl
  case h_4 out st c hout => exact forward_ends hfwd hready hout hexit rfl hsh

/-- A session that could not get a backend ended with an error. -/
theorem install_told (t : Turn) (c : PgBackend σ) (hnone : (install srv g t c r).session.held = none) :
    (install srv g t c r).session.Told := by
  revert hnone
  unfold install
  simp only [Relay.withSession]
  split
  case h_1 => exact fun _ => told_fatalExit _ _ _ _ _
  case h_2 => exact fun _ => told_fatalExit _ _ _ _ _
  case h_3 => exact fun hnone => (by cases hnone)

theorem exit_install (hexit : r.session.exit = none) (h : (install srv g t c r).session.held ≠ none) :
    (install srv g t c r).session.exit = none := by
  revert h
  unfold install
  simp only [Relay.withSession]
  split
  case h_1 => exact fun h => absurd rfl h
  case h_2 => exact fun h => absurd rfl h
  case h_3 => exact fun _ => hexit

theorem shelves_install (h : (install srv g t c r).session.held ≠ none) :
    (install srv g t c r).shelves = r.shelves := by
  revert h
  unfold install
  simp only [Relay.withSession]
  split
  case h_1 => exact fun h => absurd rfl h
  case h_2 => exact fun h => absurd rfl h
  case h_3 => exact fun _ => rfl

variable (srv g t msg) in
/-- A message that needs a backend gets one, or the client is told. -/
theorem borrow_cases (hexit : r.session.exit = none) :
    ((borrow srv g t msg (r.withSession fun s => (s.receive msg).arrive msg)).session.held = none ∧
      (borrow srv g t msg (r.withSession fun s => (s.receive msg).arrive msg)).session.Told) ∨
    ((borrow srv g t msg (r.withSession fun s => (s.receive msg).arrive msg)).session.held ≠ none ∧
      (borrow srv g t msg (r.withSession fun s => (s.receive msg).arrive msg)).session.exit = none ∧
      ∀ p c, c ∈ (borrow srv g t msg (r.withSession fun s => (s.receive msg).arrive msg)).shelves p →
        c ∈ r.shelves p) := by
  unfold borrow
  split
  case h_1 co' hheld =>
    exact .inr ⟨by rw [hheld]; exact Option.some_ne_none co', hexit, fun p c hc => hc⟩
  case h_2 hnone =>
    dsimp only
    generalize hr₀ : ({ session := _, shelves := _, cursor := _ } : Relay σ) = r₀
    cases hacq : acquireRouted srv g t r₀ with
    | mk acquired r₁ =>
        subst hr₀
        obtain ⟨hs, hsh, -⟩ := acquireRouted_spec hacq
        have hexit₁ : r₁.session.exit = none := by rcases hs with hs | hs <;> rw [hs] <;> exact hexit
        cases acquired with
        | error e => exact .inl ⟨rfl, told_fatalExit _ _ _ _ _⟩
        | ok conn =>
            by_cases hheld : (install srv g t conn r₁).session.held = none
            · exact .inl ⟨hheld, install_told t conn hheld⟩
            · refine .inr ⟨hheld, exit_install hexit₁ hheld, fun p c hc => ?_⟩
              rw [shelves_install hheld] at hc
              exact hsh p c hc

/-- A turn that forwards a message begins with getting ready. -/
theorem relayStep_forwards (hexit : r.session.exit = none) (hfwd : Forwards r t msg) :
    relayStep sha256 srv g r t =
      match (borrow srv g t msg (r.withSession fun s => (s.receive msg).arrive msg)).session.held with
      | some co => dispatch sha256 srv g t msg co
          (borrow srv g t msg (r.withSession fun s => (s.receive msg).arrive msg))
      | none => borrow srv g t msg (r.withSession fun s => (s.receive msg).arrive msg) := by
  have haccepted : refusedByPolicy (r.withSession (Session.receive msg)).session.policy msg = none :=
    hfwd.accepted
  rw [relayStep, if_neg (by simp [hexit]), hfwd.event]
  simp only [onMessage, haccepted, if_neg hfwd.stays]
  rfl

variable (sha256 srv g) in
/-- A turn that forwards a message: no backend could be had and the client was told, or it ends in one of
four ways. -/
theorem relayStep_ends (hexit : r.session.exit = none) (hfwd : Forwards r t msg) :
    (r.session.held = none ∧ (relayStep sha256 srv g r t).session.Told) ∨
      ∃ s co, Ready srv g r t msg s co ∧
        TurnEnd sha256 srv g r t msg s co (relayStep sha256 srv g r t).session := by
  rw [relayStep_forwards hexit hfwd]
  obtain ⟨hnone, htold⟩ | ⟨hheld, hexit₁, hsh⟩ := borrow_cases srv g t msg hexit
  · left
    rw [hnone]
    refine ⟨?_, htold⟩
    by_contra hsome
    obtain ⟨co, hco⟩ := Option.ne_none_iff_exists'.mp hsome
    have hheld : (r.withSession fun s => (s.receive msg).arrive msg).session.held = some co := hco
    rw [borrow] at hnone
    simp only [hheld] at hnone
    cases hnone
  · right
    obtain ⟨co, hco⟩ := Option.ne_none_iff_exists'.mp hheld
    rw [hco]
    exact ⟨_, co, borrow_ready hco, dispatch_ends hfwd (borrow_ready hco) hexit₁ rfl hsh⟩

end TurnEnd

/-! ## Watching a session -/

/-- Nothing has happened yet, and the session is one of transaction mode. -/
structure Session.New (s : Session σ) : Prop extends s.Fresh where
  state : s.state = { mode := .transaction }
  routing : s.routing = {}
  exchange : s.exchange = []
  exit : s.exit = none

section Watch

variable {W L : Type} (sha256 srv g) (visit : L → Visit σ) (watch : Session σ → L → Session σ → W → W)

/-- A turn of a session, seen by an observer who remembers something about it. -/
def watchStep (x : Session σ × W) (l : L) : Session σ × W :=
  (sessionStep sha256 srv g x.1 (visit l), watch x.1 l (sessionStep sha256 srv g x.1 (visit l)) x.2)

variable {sha256 srv g visit watch} in
/-- **The invariant rule for a watched session.** -/
theorem watch_of_along {ok : Session σ × W → L → Prop} {P : Session σ → W → Prop} {x : Session σ × W}
    {ls : List L} (hstart : P x.1 x.2)
    (hstep : ∀ s w l, s.exit = none → P s w → ok (s, w) l →
      (sessionStep sha256 srv g s (visit l)).exit = none →
      P (sessionStep sha256 srv g s (visit l)) (watch s l (sessionStep sha256 srv g s (visit l)) w))
    (hrun : Along (watchStep sha256 srv g visit watch) ok x ls)
    (hexit : (run (watchStep sha256 srv g visit watch) x ls).1.exit = none) :
    P (run (watchStep sha256 srv g visit watch) x ls).1
      (run (watchStep sha256 srv g visit watch) x ls).2 := by
  refine hrun.invariant (I := fun x => x.1.exit = none → P x.1 x.2) ?_ (fun _ => hstart) hexit
  intro x l hx hok hnext
  have hbefore : x.1.exit = none := by
    by_contra hended
    rw [watchStep, sessionStep_ended hended] at hnext
    exact hended hnext
  exact hstep x.1 x.2 l hbefore (hx hbefore) hok hnext

end Watch

end Havuz
