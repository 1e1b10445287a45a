import Havuz.Relay.OneTarget

/-!
# Messages reach the backend that answers

An observer writes down what the client sent and the relay did not answer by itself, exchange by
exchange (`Account`). The books say what was forwarded to the backend whose `ReadyForQuery` closed each
exchange. A replica that does not take a message loses it: the loop goes on with the next message on
another backend, and the lost one is only in `exchange`. Where that does not happen, the two accounts
agree, whether or not an exchange is started over.
-/

namespace Havuz

open Lib Sql

variable {σ : Type} {sha256 : Bytes → Bytes} {srv : Server σ} {g : Group}

/-! ## The observer -/

/-- What the client sent and the relay did not answer itself: in the exchange in progress, and in every
exchange that reached its `ReadyForQuery`. -/
structure Account where
  pending : List Message := []
  done : List (List Message) := []
deriving DecidableEq, Repr

/-- The relay composed a message for the client. -/
def answeredHere (s s' : Session σ) : Bool :=
  (s'.log.sent.drop s.log.sent.length).any fun
    | .composed _ => true
    | .relayed _ => false

/-- The account after a turn from `s` to `s'`. -/
def Account.next (s : Session σ) (v : Visit σ) (s' : Session σ) (a : Account) : Account :=
  let pending := if answeredHere s s' then a.pending else a.pending ++ v.message.toList
  if s.log.history.length < s'.log.history.length then ⟨[], a.done ++ [pending]⟩
  else ⟨pending, a.done⟩

/-! ## The condition -/

variable (sha256 srv) in
/-- The connection takes the exchange of the session when it is started over. -/
def TakesReplay (s : Session σ) (c : PgBackend σ) : Prop :=
  (replayExchange sha256 srv s.exchange s c).1 = .ok () ∧
    srv.flush (replayExchange sha256 srv s.exchange s c).2.2.server = true

variable (sha256 srv g) in
/-- The condition under which every message reaches the backend that answers. -/
structure Delivers (x : Session σ × Account) (v : Visit σ) : Prop where
  /-- A replica takes what is forwarded to it. -/
  takes : ∀ msg s co out st c, Forwards (v.relay x.1) v.turn msg →
    Ready srv g (v.relay x.1) v.turn msg s co → s.currentRoute.isReplica = true →
    outgoing sha256 srv (prepareParse srv) msg s.statements co.conn = .send out st c →
    srv.write c.server out ≠ none
  /-- No COPY starts on a replica. -/
  copies : ∀ msg s co out st c c' replies e delivered c'',
    Sends sha256 srv g (v.relay x.1) v.turn msg s co out st c c' replies → expectsReply msg = true →
    c'.pumpUntilReady v.turn.clientAccepts = (some e, delivered, c'') → s.currentRoute.isReplica = true →
    (delivered.any fun d => opensCopy d.msg) = false
  /-- A name can be freed for a `Parse`, and what was written can be flushed. -/
  closes : ∀ msg s co e st c, Forwards (v.relay x.1) v.turn msg →
    Ready srv g (v.relay x.1) v.turn msg s co →
    outgoing sha256 srv (prepareParse srv) msg s.statements co.conn ≠ .closeFailed e st c
  flushes : ∀ msg s co out st c c' replies,
    Sends sha256 srv g (v.relay x.1) v.turn msg s co out st c c' replies → expectsReply msg = true →
    srv.flush c'.server = true
  /-- The primary takes an exchange that is started over. -/
  replays : ∀ msg s co out st c c' replies c'' s₁ c₀ sync conn,
    Sends sha256 srv g (v.relay x.1) v.turn msg s co out st c c' replies → expectsReply msg = true →
    c'.pumpUntilReady v.turn.clientAccepts = (none, [], c'') → s.currentRoute.isReplica = true →
    Offered srv g v.shelves c₀ → c₀.syncParams srv s.params = (.ok sync, conn) →
    s₁.exchange = s.exchange → s₁.statements = st → TakesReplay sha256 srv s₁ conn

/-! ## A turn -/

theorem replayExchange_taken {s s' : Session σ} {c c' : PgBackend σ} {msgs : List Message}
    {res : Except ProtoError Unit} (hreplay : replayExchange sha256 srv msgs s c = (res, s', c'))
    (hmsgs : msgs = s.exchange) (h : TakesReplay sha256 srv s c) :
    res = .ok () ∧ srv.flush c'.server = true := by
  subst hmsgs
  unfold TakesReplay at h
  rwa [hreplay] at h

/-- A session whose replay was taken goes on, or the client is told. -/
theorem replayOnPrimary_told {r : Relay σ} {t : Turn} (hexit : r.session.exit = none)
    (htakes : ∀ s₁ c₀ sync conn, Offered srv g r.shelves c₀ →
      c₀.syncParams srv r.session.params = (.ok sync, conn) → s₁.exchange = r.session.exchange →
      s₁.statements = r.session.statements → TakesReplay sha256 srv s₁ conn)
    (hended : (replayOnPrimary sha256 srv g t r).session.exit ≠ none) :
    (replayOnPrimary sha256 srv g t r).session.Told := by
  revert hended
  unfold replayOnPrimary
  simp only [Relay.withSession]
  split
  case h_1 => exact fun _ => told_fatalExit _ _ _ _ _
  case h_2 conn hacq =>
    split
    case h_1 => exact fun _ => told_fatalExit _ _ _ _ _
    case h_2 => exact fun _ => told_fatalExit _ _ _ _ _
    case h_3 sync conn₁ hok hsync =>
      have htaken := fun s₁ => htakes s₁ conn sync conn₁ (acquire_offered hacq) hsync
      split
      case h_1 e s₁ conn₂ hreplay =>
        cases (replayExchange_taken hreplay rfl (htaken _ rfl rfl)).1
      case h_2 s₁ conn₂ hreplay =>
        obtain ⟨-, hflush⟩ := replayExchange_taken hreplay rfl (htaken _ rfl rfl)
        split
        case isTrue hfails => simp [hflush] at hfails
        case isFalse =>
          split
          case h_1 e delivered conn₃ hpump =>
            intro hended
            rw [session_exchangeDone, exit_finished] at hended
            obtain ⟨⟨statements, log, hs₁⟩, -⟩ := replayExchange_ok hreplay
            exact absurd (by rw [hs₁]; exact hexit) hended
          case h_2 => exact fun _ => told_fatalExit _ _ _ _ _

section Step

variable {s : Session σ} {a : Account} {v : Visit σ}

/-- A message is forwarded, or the client is told. -/
theorem Delivers.told (ok : Delivers sha256 srv g (s, a) v) (hexit : s.exit = none) {msg : Message}
    (hfwd : Forwards (v.relay s) v.turn msg) (hended : (sessionStep sha256 srv g s v).exit ≠ none) :
    (sessionStep sha256 srv g s v).Told := by
  obtain ⟨-, htold⟩ | ⟨s₁, co, hready, hend⟩ := relayStep_ends sha256 srv g hexit hfwd
  · exact htold
  · rw [sessionStep] at hended ⊢
    cases hend with
    | said _ htold => exact htold hended
    | closeFailed _ hout => exact absurd hout (ok.closes msg s₁ co _ _ _ hfwd hready)
    | flushFailed _ hsends hreply hflush =>
        rw [ok.flushes msg s₁ co _ _ _ _ _ hsends hreply] at hflush
        cases hflush
    | restarted hsends hreply hpump hroute hsession hshelves hdone =>
        rw [hdone] at hended ⊢
        refine replayOnPrimary_told ?_ ?_ hended
        · rw [hsession]
          exact hready.prepared.exit.trans hexit
        · intro s₂ c₀ sync conn hoffer hsync hexchange hstatements
          rw [hsession] at hsync hexchange hstatements
          exact ok.replays msg s₁ co _ _ _ _ _ _ s₂ c₀ sync conn hsends hreply hpump hroute
            (hoffer.mono hshelves) hsync hexchange hstatements

end Step

/-! ## The two accounts -/

/-- The observer's account agrees with the books. -/
structure Accounted (s : Session σ) (a : Account) : Prop where
  done : List.Forall₂ (fun ms h => ms.Sublist (h.1.map Forward.msg)) a.done s.log.history
  pending : a.pending.Sublist (s.log.inFlight.map Forward.msg)
  idle : s.held = none → a.pending = []
  /-- On a replica the exchange can start over: it is all buffered, and nothing came back so far. -/
  replica : s.held ≠ none → s.currentRoute.isReplica = true →
    a.pending.Sublist s.exchange ∧ s.log.delivered = []

section Account

variable {s s₁ s' : Session σ} {a : Account} {v : Visit σ} {msg : Message} {co : Checkout σ}

theorem answeredHere_relayed (delivered : List Reply)
    (h : s'.log.sent = s.log.sent ++ delivered.map .relayed) : answeredHere s s' = false := by
  rw [answeredHere, h, List.drop_left, List.any_map, List.any_eq_false]
  simp

theorem answeredHere_refuse {error : Message} {status : TransactionStatus}
    (h : s₁.log.sent = s.log.sent) : answeredHere s (s₁.refuse msg error status) = true := by
  rw [answeredHere, Session.log_refuse]
  simp [h]

/-- The message waits for the rest of its exchange. -/
theorem Account.next_pending (hmsg : v.message = some msg) (hsent : answeredHere s s' = false)
    (hhistory : s'.log.history = s.log.history) :
    a.next s v s' = ⟨a.pending ++ [msg], a.done⟩ := by
  simp [next, hmsg, hsent, hhistory]

/-- It was answered here. -/
theorem Account.next_refused (hsent : answeredHere s s' = true)
    (hhistory : s'.log.history = s.log.history) : a.next s v s' = a := by
  simp [next, hsent, hhistory]

/-- It ended its exchange. -/
theorem Account.next_done {h : List (Forward σ) × List Reply} (hmsg : v.message = some msg)
    (hsent : answeredHere s s' = false) (hhistory : s'.log.history = s.log.history ++ [h]) :
    a.next s v s' = ⟨[], a.done ++ [a.pending ++ [msg]]⟩ := by
  simp [next, hmsg, hsent, hhistory]

theorem Forwards.message (hfwd : Forwards (v.relay s) v.turn msg) : v.message = some msg := by
  rw [Visit.message, hfwd.event]

/-- What is pending is in flight on the backend that is ready for the next message. -/
theorem Accounted.ready (h : Accounted s a) (hready : Ready srv g (v.relay s) v.turn msg s₁ co) :
    a.pending.Sublist (s₁.log.inFlight.map Forward.msg) ∧
      (s₁.currentRoute.isReplica = true → a.pending.Sublist s.exchange ∧ s₁.log.delivered = []) := by
  obtain ⟨hheld, -, hroute, -⟩ | ⟨hnone, -⟩ := hready.prepared.target
  · obtain ⟨hinFlight, hdelivered⟩ := hready.books_held hheld
    rw [hinFlight, hdelivered, hroute]
    exact ⟨h.pending, h.replica hheld⟩
  · rw [h.idle hnone, (hready.books_none hnone).2]
    exact ⟨List.nil_sublist _, fun _ => ⟨List.nil_sublist _, rfl⟩⟩

/-- The message was answered here. -/
theorem Accounted.refused (h : Accounted s a) {error : Message} {status : TransactionStatus}
    (hsent : s₁.log.sent = s.log.sent) (hhistory : s₁.log.history = s.log.history)
    (hpending : a.pending.Sublist (s₁.log.inFlight.map Forward.msg))
    (hidle : s₁.held = none → a.pending = [])
    (hreplica : s₁.held ≠ none → s₁.currentRoute.isReplica = true →
      a.pending.Sublist s₁.exchange ∧ s₁.log.delivered = []) :
    Accounted (s₁.refuse msg error status) (a.next s v (s₁.refuse msg error status)) := by
  have hsame : (s₁.refuse msg error status).log.history = s.log.history := by
    rw [Session.log_refuse]
    exact hhistory
  rw [Account.next_refused (answeredHere_refuse hsent) hsame]
  refine ⟨hsame ▸ h.done, ?_, ?_, ?_⟩
  · rw [Session.log_refuse]
    exact hpending
  · rw [Session.held_refuse]
    exact hidle
  · rw [Session.held_refuse, Session.log_refuse]
    exact hreplica

/-- The session waits for more of the exchange. -/
theorem Accounted.waiting (h : Accounted s a) (hfwd : Forwards (v.relay s) v.turn msg)
    (hready : Ready srv g (v.relay s) v.turn msg s₁ co) (hheld : s'.held ≠ none)
    (hsent : s'.log.sent = s₁.log.sent) (hhistory : s'.log.history = s₁.log.history)
    (hinFlight : s'.log.inFlight.map Forward.msg = s₁.log.inFlight.map Forward.msg ++ [msg])
    (hdelivered : s'.log.delivered = s₁.log.delivered) (hexchange : s'.exchange = s₁.exchange)
    (hroute : s'.currentRoute = s₁.currentRoute) : Accounted s' (a.next s v s') := by
  have hsame : s'.log.history = s.log.history := hhistory.trans hready.history_eq
  have hquiet : answeredHere s s' = false := by
    refine answeredHere_relayed [] ?_
    rw [hsent, hready.sent_eq]
    simp
  obtain ⟨hpending, hreplica⟩ := h.ready hready
  rw [Account.next_pending hfwd.message hquiet hsame]
  refine ⟨hsame ▸ h.done, ?_, fun hnone => absurd hnone hheld, fun _ hreplica' => ?_⟩
  · rw [hinFlight]
    exact hpending.append (List.Sublist.refl _)
  · rw [hroute] at hreplica'
    obtain ⟨hbuffered, hnothing⟩ := hreplica hreplica'
    rw [hexchange, hready.prepared.exchange, hdelivered]
    exact ⟨hbuffered.append (List.Sublist.refl _), hnothing⟩

/-- The pump came back, on the first backend or on the second. -/
theorem Accounted.finished (h : Accounted s a) (hfwd : Forwards (v.relay s) v.turn msg)
    (s₂ : Session σ) {c c' : PgBackend σ} {accepts : Option ℕ} {e : ExchangeEnd} {delivered : List Reply}
    (hsent : s₂.log.sent = s.log.sent) (hhistory : s₂.log.history = s.log.history)
    (hinFlight : (a.pending ++ [msg]).Sublist (s₂.log.inFlight.map Forward.msg))
    (hpump : c.pumpUntilReady accepts = (some e, delivered, c'))
    (hcopy : s₂.currentRoute.isReplica = true → (delivered.any fun d => opensCopy d.msg) = false)
    (co : Checkout σ) :
    Accounted ((s₂.answered delivered).finished co e)
      (a.next s v ((s₂.answered delivered).finished co e)) := by
  have hquiet : answeredHere s ((s₂.answered delivered).finished co e) = false := by
    refine answeredHere_relayed delivered ?_
    rw [Session.sent_finished, hsent]
  cases hstarts : delivered.any fun d => opensCopy d.msg with
  | true =>
      obtain ⟨hflight, hsame⟩ := s₂.books_copy co e hstarts
      rw [hhistory] at hsame
      rw [Account.next_pending hfwd.message hquiet hsame]
      refine ⟨hsame ▸ h.done, hflight ▸ hinFlight, fun hnone => ?_, fun _ hroute => ?_⟩
      · refine absurd hnone (Session.held_finished _ _ _ ?_)
        rw [Session.inTransaction_finished, pumpUntilReady_copy hpump hstarts]
        rfl
      · rw [Session.currentRoute_finished] at hroute
        rw [hcopy hroute] at hstarts
        cases hstarts
  | false =>
      obtain ⟨hflight, hnothing, hclosed⟩ := s₂.books_ready co e hstarts
      rw [hhistory] at hclosed
      rw [Account.next_done hfwd.message hquiet hclosed]
      refine ⟨?_, List.nil_sublist _, fun _ => rfl, fun _ _ => ⟨List.nil_sublist _, hnothing⟩⟩
      rw [hclosed]
      exact List.rel_append h.done (.cons hinFlight .nil)

/-- Every way a turn can end when every message is delivered. -/
theorem Accounted.rule (h : Accounted s a) (ok : Delivers sha256 srv g (s, a) v) :
    SessionRule sha256 srv g (v.relay s) v.turn fun s' => Accounted s' (a.next s v s') := by
  constructor
  case idle =>
    intro hevent
    have hnext : a.next s v s = a := by simp [Account.next, Visit.message, hevent]
    rw [Visit.session_relay, hnext]
    exact h
  case policy =>
    intro msg reason _ _
    exact h.refused rfl rfl h.pending h.idle h.replica
  case refused =>
    intro msg s₁ co e hfwd hready _
    obtain ⟨hpending, hreplica⟩ := h.ready hready
    refine h.refused hready.sent_eq hready.history_eq hpending (fun hnone => ?_) fun _ hroute => ?_
    · rw [hready.held_eq] at hnone
      cases hnone
    · obtain ⟨hbuffered, hnothing⟩ := hreplica hroute
      rw [hready.prepared.exchange]
      exact ⟨hbuffered.trans (List.sublist_append_left _ _), hnothing⟩
  case dropped =>
    intro msg s₁ co out st c hfwd hready hout hwrite hroute
    exact absurd hwrite (ok.takes msg s₁ co out st c hfwd hready hroute hout)
  case pipelined =>
    intro msg s₁ co out st c c' replies hsends _
    refine h.waiting hsends.forwards hsends.ready (Option.some_ne_none _) rfl rfl ?_ rfl rfl rfl
    simp [Session.sent, Ledger.forward]
  case answered =>
    intro msg s₁ co out st c c' replies e delivered c'' hsends hreply hpump
    refine h.finished hsends.forwards (s₁.afterSend msg out st co c c' replies) hsends.ready.sent_eq
      hsends.ready.history_eq ?_ hpump
      (ok.copies msg s₁ co out st c c' replies e delivered c'' hsends hreply hpump) _
    have hpending := (h.ready hsends.ready).1
    simpa [Session.sent, Ledger.forward] using hpending.append (List.Sublist.refl [msg])
  case replayed =>
    intro msg s₁ co out st c c' replies c'' s₂ delivered co' e c₁ c₂ hsends _ _ hroute hreplayed hpump
    refine h.finished hsends.forwards s₂ ?_ ?_ ?_ hpump (fun hreplica => ?_) _
    · exact hreplayed.sent.trans ((List.append_nil _).trans hsends.ready.sent_eq)
    · exact hreplayed.history.trans hsends.ready.history_eq
    · rw [hreplayed.inFlight]
      have hbuffered := ((h.ready hsends.ready).2 hroute).1
      have hexchange := hsends.ready.prepared.exchange
      change (a.pending ++ [msg]).Sublist s₁.exchange
      rw [hexchange]
      exact hbuffered.append (List.Sublist.refl [msg])
    · obtain ⟨_, _, _, _, hs₂⟩ := hreplayed.session
      rw [hs₂] at hreplica
      cases hreplica

end Account

/-! ## The run -/

/-- The relay had sent a message of the turn, and its connection was lost before the client got anything
of the answer. -/
def LostUnanswered (sha256 : Bytes → Bytes) (srv : Server σ) (g : Group) (r : Relay σ) (t : Turn) : Prop :=
  ∃ msg s co out st c c' replies c'', Sends sha256 srv g r t msg s co out st c c' replies ∧
    c'.pumpUntilReady t.clientAccepts = (none, [], c'')

/-- A backend in use is replaced only while the client has got nothing of the exchange. -/
theorem Accounted.not_twice {s : Session σ} {a : Account} {v : Visit σ} (h : Accounted s a)
    (hexit : s.exit = none) (hheld : s.held ≠ none)
    (htwice : (sessionStep sha256 srv g s v).checkouts ≠ s.checkouts) :
    s.log.delivered = [] ∧ LostUnanswered sha256 srv g (v.relay s) v.turn := by
  by_cases hfwd : ∃ msg, Forwards (v.relay s) v.turn msg
  · obtain ⟨msg, hfwd⟩ := hfwd
    obtain ⟨hnone, -⟩ | ⟨s₁, co, hready, hend⟩ := relayStep_ends sha256 srv g (r := v.relay s) hexit hfwd
    · exact absurd hnone hheld
    · have hsame := hready.checkouts_held hheld
      cases hend with
      | said hcheckouts => exact absurd (hcheckouts.trans hsame) htwice
      | closeFailed hcheckouts => exact absurd (hcheckouts.trans hsame) htwice
      | flushFailed hcheckouts => exact absurd (hcheckouts.trans hsame) htwice
      | restarted hsends hreply hpump hroute =>
          have hnothing := ((h.ready hready).2 hroute).2
          rw [(hready.books_held hheld).2] at hnothing
          exact ⟨hnothing, msg, s₁, co, _, _, _, _, _, _, hsends, hpump⟩
  · exact absurd (checkouts_of_not_forwards (not_exists.mp hfwd)) htwice

variable (sha256 srv g) in
/-- A turn of a session under the eyes of the observer. -/
def accountStep (x : Session σ × Account) (v : Visit σ) : Session σ × Account :=
  watchStep sha256 srv g id (fun s v s' a => a.next s v s') x v

theorem accounted_of_run {s : Session σ} (hnew : s.New) {vs : List (Visit σ)}
    (hrun : Along (accountStep sha256 srv g) (Delivers sha256 srv g) (s, {}) vs)
    (hexit : (run (accountStep sha256 srv g) (s, {}) vs).1.exit = none) :
    Accounted (run (accountStep sha256 srv g) (s, {}) vs).1 (run (accountStep sha256 srv g) (s, {}) vs).2 := by
  have hwatched : Along (watchStep sha256 srv g id fun s v s' (a : Account) => a.next s v s')
    (Delivers sha256 srv g) (s, {}) vs := hrun
  refine watch_of_along (P := Accounted) ?_ ?_ hwatched hexit
  · refine ⟨?_, List.nil_sublist _, fun _ => rfl, fun hheld => absurd hnew.held hheld⟩
    change List.Forall₂ _ [] s.log.history
    rw [hnew.log]
    exact .nil
  · intro s a v _ h ok hnext
    exact relayStep_session (h.rule ok) hnext

/-- The first Query of a session, on a connection just opened. -/
theorem sends_first_query {s₁ : Session σ} {v : Visit σ} {sql : Text} {msg out : Message} {co : Checkout σ}
    {st : ClientStatements} {c c' : PgBackend σ} {replies : List Reply}
    (hevent : v.turn.event = .message (.query sql)) (hshelves : ∀ p, v.shelves p = [])
    (hsends : Sends sha256 srv g (v.relay {}) v.turn msg s₁ co out st c c' replies) :
    msg = .query sql ∧ ∃ k, writeForClient srv (.query sql)
      { server := srv.start k, supportsDiscardAll := g.supportsDiscardAll } = some (c', replies) := by
  have hmsg := hsends.forwards.event.symm.trans hevent
  cases hmsg
  obtain ⟨k, hco⟩ := hsends.ready.opened rfl hshelves rfl
  have hquery : isSyncPoint (Message.query sql).tag = true := rfl
  obtain ⟨rfl, rfl, rfl⟩ := outgoing_syncPoint hquery hsends.outgoing
  refine ⟨rfl, k, ?_⟩
  rw [← hco]
  exact hsends.written

/-- It is answered without a COPY. -/
theorem pump_first_select {k : ℕ} {c' : PgBackend Mini.State} {replies : List Reply}
    (h : writeForClient Mini.standby (.query "SELECT 1".toList)
      { server := Mini.standby.start k, supportsDiscardAll := true } = some (c', replies)) :
    (c'.pumpUntilReady none).1.isSome = true ∧
      ((c'.pumpUntilReady none).2.1.any fun d => opensCopy d.msg) = false := by
  have hstart : Mini.standby.start k = {} := rfl
  rw [hstart] at h
  have hanswer : (writeForClient Mini.standby (.query "SELECT 1".toList)
      { server := {}, supportsDiscardAll := true }).map (fun p =>
        ((p.1.pumpUntilReady none).1.isSome, (p.1.pumpUntilReady none).2.1.any fun d => opensCopy d.msg)) =
      some (true, false) := by decide +kernel
  rw [h, Option.map_some] at hanswer
  simpa using hanswer

theorem delivers_first_select : Delivers sampleDigest Mini.standby .split ({}, {})
    (.alone (.message (.query "SELECT 1".toList))) := by
  constructor
  case takes => exact fun _ _ _ _ _ _ _ _ _ _ => Mini.standby_write _ _
  case copies =>
    intro msg s₁ co out st c c' replies e delivered c'' hsends _ hpump _
    obtain ⟨-, k, hwritten⟩ := sends_first_query rfl (fun _ => rfl) hsends
    have hnocopy := (pump_first_select hwritten).2
    change c'.pumpUntilReady none = _ at hpump
    rwa [hpump] at hnocopy
  case closes =>
    intro msg s₁ co e st c hfwd _ hout
    cases hfwd.event
    rw [outgoing_other (by decide)] at hout
    cases hout
  case flushes => exact fun _ _ _ _ _ _ _ _ _ _ => rfl
  case replays =>
    intro msg s₁ co out st c c' replies c'' s₂ c₀ sync conn hsends _ hpump _ _ _ _ _
    obtain ⟨-, k, hwritten⟩ := sends_first_query rfl (fun _ => rfl) hsends
    have hanswered := (pump_first_select hwritten).1
    change c'.pumpUntilReady none = _ at hpump
    rw [hpump] at hanswered
    cases hanswered

/-- A turn in which nothing is forwarded. -/
theorem delivers_idle {x : Session Mini.State × Account} :
    Delivers sampleDigest Mini.standby .split x (.alone .idleTimeout) := by
  constructor
  case takes => exact fun _ _ _ _ _ _ hfwd => (by cases hfwd.event)
  case copies => exact fun _ _ _ _ _ _ _ _ _ _ _ hsends => (by cases hsends.forwards.event)
  case closes => exact fun _ _ _ _ _ _ hfwd => (by cases hfwd.event)
  case flushes => exact fun _ _ _ _ _ _ _ _ hsends => (by cases hsends.forwards.event)
  case replays => exact fun _ _ _ _ _ _ _ _ _ _ _ _ _ hsends => (by cases hsends.forwards.event)

/-- A connection that is lost when a Bind is written to it: a server whose second starting state takes
none. -/
def Mini.cutting : Server (Mini.State × Bool) where
  start n := (Mini.server.start n, n = 1)
  write s m :=
    if s.2 = true ∧ m.tag = byte 'B' then none
    else (Mini.server.write s.1 m).map fun p => ((p.1, s.2), p.2)
  flush _ := true

end Havuz
