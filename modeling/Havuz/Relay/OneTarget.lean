import Havuz.Relay.Writes

/-!
# A transaction stays on its connection

Every connection a session takes is counted in `checkouts`, so the count names the connection that is
in use. Two paths take another one without telling the client: a replica that does not take a message
is given up and the loop goes on, and a replica that is lost before it answered has the exchange
started over on the primary. Neither looks at whether a transaction is open. `Steady` says that they
are not taken inside one.
-/

namespace Havuz

open Lib Sql

variable {σ : Type} {sha256 : Bytes → Bytes} {srv : Server σ} {g : Group}

/-! ## What is promised -/

/-- The connection of the session is in use: a transaction is open on it, or an exchange began on it. -/
def Session.Engaged (s : Session σ) : Prop :=
  s.state.inTransaction = true ∨ (s.held ≠ none ∧ s.exchange ≠ [])

/-- What a turn from `s` to `s'` may do with a connection that is in use. -/
structure KeepsTarget (s : Session σ) (v : Visit σ) (s' : Session σ) : Prop where
  holds : s.held ≠ none
  /-- Inside a transaction no other connection is taken. -/
  inside : s.state.inTransaction = true → s'.checkouts = s.checkouts
  /-- A connection that is lost inside a transaction ends the session with an error. -/
  told : s.state.inTransaction = true → ∀ msg, Forwards (v.relay s) v.turn msg → s'.exit ≠ none → s'.Told
  /-- Before the server reported a transaction, another connection gets the exchange from its start. -/
  opening : s'.exit = none → s'.checkouts = s.checkouts ∨
    (s.state.inTransaction = false ∧ ∃ msg fs, Forwards (v.relay s) v.turn msg ∧
      fs.map Forward.msg = s.exchange ++ [msg] ∧
      (s'.log.inFlight = fs ∨ ∃ delivered, s'.log.history = s.log.history ++ [(fs, delivered)]))

/-- The connection on which the open transaction was opened, as an observer remembers it. -/
def openedOn (s s' : Session σ) (w : Option ℕ) : Option ℕ :=
  if s'.state.inTransaction = false then none
  else if s.state.inTransaction then w
  else some s'.checkouts

variable (sha256 srv g) in
/-- The condition under which a transaction stays on its connection. -/
structure Steady (x : Session σ × Option ℕ) (v : Visit σ) : Prop where
  /-- A replica that is in use takes what is forwarded to it. -/
  takes : ∀ msg s co out st c, Forwards (v.relay x.1) v.turn msg →
    Ready srv g (v.relay x.1) v.turn msg s co → s.currentRoute.isReplica = true → x.1.Engaged →
    outgoing sha256 srv (prepareParse srv) msg s.statements co.conn = .send out st c →
    srv.write c.server out ≠ none
  /-- Inside a transaction a replica is not lost before the client got something of the answer. -/
  answers : ∀ msg s co out st c c' replies c'',
    Sends sha256 srv g (v.relay x.1) v.turn msg s co out st c c' replies → expectsReply msg = true →
    x.1.state.inTransaction = true → s.currentRoute.isReplica = true →
    c'.pumpUntilReady v.turn.clientAccepts ≠ (none, [], c'')
  /-- Inside a transaction what was written can be flushed. -/
  flushes : ∀ msg s co out st c c' replies,
    Sends sha256 srv g (v.relay x.1) v.turn msg s co out st c c' replies → expectsReply msg = true →
    x.1.state.inTransaction = true → srv.flush c'.server = true
  /-- Inside a transaction a name can be freed for a `Parse`. -/
  closes : ∀ msg s co e st c, Forwards (v.relay x.1) v.turn msg →
    Ready srv g (v.relay x.1) v.turn msg s co → x.1.state.inTransaction = true →
    outgoing sha256 srv (prepareParse srv) msg s.statements co.conn ≠ .closeFailed e st c

/-! ## A turn on a connection that is in use -/

/-- A session that is about to end takes no other connection. -/
theorem checkouts_finish (t : Turn) (r : Relay σ) :
    (finish srv t r).session.checkouts = r.session.checkouts := by
  unfold finish
  split
  · rfl
  · split <;> rfl

section Step

variable {s : Session σ} {w : Option ℕ} {v : Visit σ}

/-- A turn that forwards nothing takes no connection. -/
theorem checkouts_of_not_forwards (hfwd : ∀ msg, ¬ Forwards (v.relay s) v.turn msg) :
    (sessionStep sha256 srv g s v).checkouts = s.checkouts := by
  unfold sessionStep relayStep
  split
  · rfl
  · split
    case h_1 => exact checkouts_finish _ _
    case h_2 =>
      split
      · exact checkouts_finish _ _
      · rfl
    case h_3 => exact checkouts_finish _ _
    case h_4 msg hevent =>
      unfold onMessage
      dsimp only
      split
      case h_1 => rfl
      case h_2 haccepted =>
        split
        case isTrue => exact checkouts_finish _ _
        case isFalse hstays => exact absurd ⟨hevent, haccepted, hstays⟩ (hfwd msg)

/-- Getting ready on a connection that is held takes no other one. -/
theorem Ready.checkouts_held {msg : Message} {s₁ : Session σ} {co : Checkout σ}
    (hready : Ready srv g (v.relay s) v.turn msg s₁ co) (hheld : s.held ≠ none) :
    s₁.checkouts = s.checkouts := by
  obtain ⟨-, -, -, h⟩ | ⟨hnone, -⟩ := hready.prepared.target
  · exact h
  · exact absurd hnone hheld

/-- Inside a transaction, a turn that meets the condition stays on the connection. -/
theorem Steady.undivided (ok : Steady sha256 srv g (s, w) v) (hexit : s.exit = none)
    (hheld : s.held ≠ none) (htx : s.state.inTransaction = true) {msg : Message}
    (hfwd : Forwards (v.relay s) v.turn msg) :
    (sessionStep sha256 srv g s v).checkouts = s.checkouts ∧
      ((sessionStep sha256 srv g s v).exit ≠ none → (sessionStep sha256 srv g s v).Told) := by
  obtain ⟨hnone, -⟩ | ⟨s₁, co, hready, hend⟩ := relayStep_ends sha256 srv g hexit hfwd
  · exact absurd hnone hheld
  · have hsame := hready.checkouts_held hheld
    rw [sessionStep]
    cases hend with
    | said hcheckouts htold => exact ⟨hcheckouts.trans hsame, htold⟩
    | closeFailed _ hout => exact absurd hout (ok.closes msg s₁ co _ _ _ hfwd hready htx)
    | flushFailed _ hsends hreply hflush =>
        rw [ok.flushes msg s₁ co _ _ _ _ _ hsends hreply htx] at hflush
        cases hflush
    | restarted hsends hreply hpump hroute =>
        exact absurd hpump (ok.answers msg s₁ co _ _ _ _ _ _ hsends hreply htx hroute)

/-- A session inside a transaction has its backend. -/
theorem Steady.holds (ok : Steady sha256 srv g (s, w) v)
    (h : s.state.inTransaction = true → s.held ≠ none) :
    SessionRule sha256 srv g (v.relay s) v.turn
      fun s' => s'.state.inTransaction = true → s'.held ≠ none := by
  constructor
  case idle => exact fun _ => h
  case policy =>
    intro msg reason _ _
    rw [Session.held_refuse, Session.state_refuse]
    exact h
  case refused =>
    intro msg s₁ co e _ hready _ _
    rw [Session.held_refuse, hready.held_eq]
    exact Option.some_ne_none co
  case dropped =>
    intro msg s₁ co out st c hfwd hready hout hwrite hroute htx
    have hbefore : s.state.inTransaction = true := by
      obtain ⟨pin, hpinned⟩ := hready.prepared.pinned
      change s₁.state.inTransaction = true at htx
      rw [hpinned] at htx
      exact htx
    exact absurd hwrite (ok.takes msg s₁ co out st c hfwd hready hroute (.inl hbefore) hout)
  case pipelined => exact fun _ _ _ _ _ _ _ _ _ _ _ => Option.some_ne_none _
  case answered => exact fun _ _ _ _ _ _ _ _ _ _ _ _ _ _ htx => Session.held_finished _ _ _ htx
  case replayed =>
    exact fun _ _ _ _ _ _ _ _ _ _ _ _ _ _ _ _ _ _ _ _ _ htx => Session.held_finished _ _ _ htx

/-- What is in flight when an exchange is over, or was. -/
theorem Session.inFlight_or_history (s : Session σ) (delivered : List Reply) (co : Checkout σ)
    (e : ExchangeEnd) :
    ((s.answered delivered).finished co e).log.inFlight = s.log.inFlight ∨
      ∃ d, ((s.answered delivered).finished co e).log.history = s.log.history ++ [(s.log.inFlight, d)] := by
  rw [Session.log_finished]
  simp only [Session.answered, Session.note, Session.deliver, Ledger.exchangeEnd]
  split
  · exact .inl rfl
  · exact .inr ⟨_, rfl⟩

/-- A connection in use is kept, or another one gets the exchange from its start. -/
theorem Steady.opening (ok : Steady sha256 srv g (s, w) v) (hengaged : s.Engaged) (hheld : s.held ≠ none) :
    SessionRule sha256 srv g (v.relay s) v.turn fun s' => s'.checkouts = s.checkouts ∨
      (s.state.inTransaction = false ∧ ∃ msg fs, Forwards (v.relay s) v.turn msg ∧
        fs.map Forward.msg = s.exchange ++ [msg] ∧
        (s'.log.inFlight = fs ∨ ∃ delivered, s'.log.history = s.log.history ++ [(fs, delivered)])) := by
  constructor
  case idle => exact fun _ => .inl rfl
  case policy => exact fun _ _ _ _ => .inl rfl
  case refused =>
    intro msg s₁ co e _ hready _
    have h := hready.checkouts_held hheld
    exact .inl h
  case dropped =>
    intro msg s₁ co out st c hfwd hready hout hwrite hroute
    exact absurd hwrite (ok.takes msg s₁ co out st c hfwd hready hroute hengaged hout)
  case pipelined =>
    intro msg s₁ co out st c c' replies hsends _
    have h := hsends.ready.checkouts_held hheld
    exact .inl h
  case answered =>
    intro msg s₁ co out st c c' replies e delivered c'' hsends _ _
    have h := hsends.ready.checkouts_held hheld
    left
    rw [Session.checkouts_finished]
    exact h
  case replayed =>
    intro msg s₁ co out st c c' replies c'' s₂ delivered co' e _ _ hsends hreply hpump hroute hreplayed _
    have hidle : s.state.inTransaction = false := by
      by_contra htx
      exact ok.answers msg s₁ co out st c c' replies c'' hsends hreply (by simpa using htx) hroute hpump
    have hfs : s₂.log.inFlight.map Forward.msg = s.exchange ++ [msg] :=
      hreplayed.inFlight.trans hsends.ready.prepared.exchange
    have hbefore := hsends.ready.history_eq
    have hhistory : s₂.log.history = s.log.history := hreplayed.history.trans hbefore
    refine .inr ⟨hidle, msg, s₂.log.inFlight, hsends.forwards, hfs, ?_⟩
    rw [← hhistory]
    exact s₂.inFlight_or_history delivered co' e

end Step

/-! ## The run -/

variable (sha256 srv g) in
/-- A turn of a session under the eyes of the observer. -/
def targetStep (x : Session σ × Option ℕ) (v : Visit σ) : Session σ × Option ℕ :=
  watchStep sha256 srv g id (fun s _ s' w => openedOn s s' w) x v

/-- A session inside a transaction has the connection it was opened on. -/
def Anchored (s : Session σ) (w : Option ℕ) : Prop :=
  s.state.inTransaction = true → s.held ≠ none ∧ w = some s.checkouts

theorem Anchored.step {s : Session σ} {w : Option ℕ} {v : Visit σ} (h : Anchored s w)
    (ok : Steady sha256 srv g (s, w) v) (hexit : s.exit = none)
    (hnext : (sessionStep sha256 srv g s v).exit = none) :
    Anchored (sessionStep sha256 srv g s v) (openedOn s (sessionStep sha256 srv g s v) w) := by
  intro htx
  refine ⟨relayStep_session (ok.holds fun htx => (h htx).1) hnext htx, ?_⟩
  rw [openedOn, if_neg (by simp [htx])]
  by_cases hbefore : s.state.inTransaction = true
  · rw [if_pos hbefore, (h hbefore).2]
    by_cases hfwd : ∃ msg, Forwards (v.relay s) v.turn msg
    · obtain ⟨msg, hfwd⟩ := hfwd
      rw [(ok.undivided hexit (h hbefore).1 hbefore hfwd).1]
    · rw [checkouts_of_not_forwards (not_exists.mp hfwd)]
  · rw [if_neg hbefore]

theorem anchored_of_run {s : Session σ} (hnew : s.New) {vs : List (Visit σ)}
    (hrun : Along (targetStep sha256 srv g) (Steady sha256 srv g) (s, none) vs)
    (hexit : (run (targetStep sha256 srv g) (s, none) vs).1.exit = none) :
    Anchored (run (targetStep sha256 srv g) (s, none) vs).1
      (run (targetStep sha256 srv g) (s, none) vs).2 := by
  have hwatched : Along (watchStep sha256 srv g id fun s _ s' w => openedOn s s' w)
    (Steady sha256 srv g) (s, none) vs := hrun
  refine watch_of_along (P := Anchored) ?_ ?_ hwatched hexit
  · intro htx
    rw [hnew.state] at htx
    cases htx
  · exact fun s w v hexit h ok hnext => h.step ok hexit hnext

/-- **A transaction stays on its connection.** In every state of a steady run, an open transaction is on
the connection it was opened on, and a turn takes no other one while that is in use. -/
theorem transaction_keeps_target {s₀ : Session σ} (hnew : s₀.New) {vs : List (Visit σ)} {v : Visit σ}
    (hrun : Along (targetStep sha256 srv g) (Steady sha256 srv g) (s₀, none) (vs ++ [v]))
    (hexit : (run (targetStep sha256 srv g) (s₀, none) vs).1.exit = none) :
    ((run (targetStep sha256 srv g) (s₀, none) vs).1.state.inTransaction = true →
        (run (targetStep sha256 srv g) (s₀, none) vs).2 =
          some (run (targetStep sha256 srv g) (s₀, none) vs).1.checkouts) ∧
      ((run (targetStep sha256 srv g) (s₀, none) vs).1.Engaged →
        KeepsTarget (run (targetStep sha256 srv g) (s₀, none) vs).1 v
          (sessionStep sha256 srv g (run (targetStep sha256 srv g) (s₀, none) vs).1 v)) := by
  obtain ⟨hrun, ok, -⟩ := Along.append.mp hrun
  have hanchored := anchored_of_run hnew hrun hexit
  generalize run (targetStep sha256 srv g) (s₀, none) vs = x at *
  refine ⟨fun htx => (hanchored htx).2, fun hengaged => ?_⟩
  have hheld : x.1.held ≠ none := by
    rcases hengaged with htx | ⟨hheld, -⟩
    · exact (hanchored htx).1
    · exact hheld
  refine ⟨hheld, fun htx => ?_, fun htx msg hfwd hended => ?_, fun hnext => ?_⟩
  · by_cases hfwd : ∃ msg, Forwards (v.relay x.1) v.turn msg
    · obtain ⟨msg, hfwd⟩ := hfwd
      exact (ok.undivided hexit hheld htx hfwd).1
    · exact checkouts_of_not_forwards (not_exists.mp hfwd)
  · exact (ok.undivided hexit hheld htx hfwd).2 hended
  · exact relayStep_session (ok.opening hengaged hheld) hnext

/-! ## A transaction on a replica -/

/-- A Query on a server whose sockets never fail. -/
theorem steady_query {s : Session σ} {w : Option ℕ} {v : Visit σ} {sql : Text}
    (hevent : v.turn.event = .message (.query sql)) (hwrite : ∀ s m, srv.write s m ≠ none)
    (hflush : ∀ s, srv.flush s = true)
    (hanswers : s.state.inTransaction = true → NoRestart srv g (v.relay s) v.turn) :
    Steady sha256 srv g (s, w) v := by
  constructor
  case takes => exact fun _ _ _ _ _ _ _ _ _ _ _ => hwrite _ _
  case answers =>
    intro msg s₁ co out st c c' replies c'' hsends hreply htx hroute hpump
    exact (hanswers htx).absurd hsends hreply hpump hroute
  case flushes => exact fun _ _ _ _ _ _ _ _ _ _ _ => hflush _
  case closes =>
    intro msg s₁ co e st c hfwd _ _ hout
    have hmsg := hfwd.event.symm.trans hevent
    cases hmsg
    have hother : byte 'Q' ≠ byte 'P' ∧ byte 'Q' ≠ byte 'B' ∧ byte 'Q' ≠ byte 'D' ∧ byte 'Q' ≠ byte 'C' := by
      decide
    rw [outgoing_other (by exact hother)] at hout
    cases hout

/-- A client that takes the first reply, on a connection that sends one. -/
theorem noRestart_held {s : Session σ} {v : Visit σ} {msg : Message} {co : Checkout σ}
    (hevent : v.turn.event = .message msg) (hheld : s.held = some co)
    (haccepts : v.turn.clientAccepts = none)
    (hreplies : (srv.write co.conn.server msg).all fun p => !p.2.isEmpty) :
    NoRestart srv g (v.relay s) v.turn := by
  intro msg' s₁ co' hfwd hready _ _
  have hmsg := hfwd.event.symm.trans hevent
  cases hmsg
  refine ⟨by rw [haccepts]; nofun, fun s' rs hwrite => ?_⟩
  cases hready with
  | held hco =>
      cases hheld.symm.trans hco
      rw [hwrite] at hreplies
      rintro rfl
      cases hreplies
  | borrowed hnone =>
      cases hheld.symm.trans hnone

/-- A connection that takes the messages of a transaction and is then lost: a server whose second
starting state does not answer inside one. -/
def Mini.failing : Server (Mini.State × Bool) where
  start n := (Mini.server.start n, n = 1)
  write s m :=
    if s.2 = true ∧ s.1.status ≠ .idle then some (s, [])
    else (Mini.standby.write s.1 m).map fun p => ((p.1, s.2), p.2)
  flush _ := true

/-- A turn of a session that opens such a connection of the replica; the primary's are sound. -/
def Visit.failing (event : Event) : Visit (Mini.State × Bool) :=
  { turn := { Turn.plain event with acquire := .granted (fun _ => false) (.ok 1) }, shelves := fun _ => [] }

/-- A read inside a read-only transaction on a replica. -/
theorem transaction_keeps_target_read_only :
    (run (targetStep sampleDigest Mini.standby .split) ({}, none) (readOnlyTurns.take 1)).2 = some 1 ∧
      KeepsTarget (run (targetStep sampleDigest Mini.standby .split) ({}, none) (readOnlyTurns.take 1)).1
        (.alone (.message (.query "SELECT 1".toList)))
        (sessionStep sampleDigest Mini.standby .split
          (run (targetStep sampleDigest Mini.standby .split) ({}, none) (readOnlyTurns.take 1)).1
          (.alone (.message (.query "SELECT 1".toList)))) := by
  have hrun : Along (targetStep sampleDigest Mini.standby .split) (Steady sampleDigest Mini.standby .split)
      ({}, none) (readOnlyTurns.take 1 ++ [.alone (.message (.query "SELECT 1".toList))]) := by
    refine ⟨steady_query rfl Mini.standby_write (fun _ => rfl) nofun,
      steady_query rfl Mini.standby_write (fun _ => rfl) fun _ => ?_, trivial⟩
    have hheld : (targetStep sampleDigest Mini.standby .split ({}, none)
        (.alone (.message (.query "BEGIN READ ONLY".toList)))).1.held.map (fun co =>
          (Mini.standby.write co.conn.server (.query "SELECT 1".toList)).all fun p => !p.2.isEmpty) =
        some true := by decide +kernel
    obtain ⟨co, hco, hreplies⟩ := Option.map_eq_some_iff.mp hheld
    exact noRestart_held rfl hco rfl hreplies
  have hkeeps := transaction_keeps_target ⟨⟨rfl, rfl, rfl⟩, rfl, rfl, rfl, rfl⟩ hrun (by decide +kernel)
  exact ⟨by decide +kernel, hkeeps.2 (.inl (by decide +kernel))⟩

/-- The replica is lost inside a transaction: the next statement is run on the primary. -/
theorem not_transaction_keeps_target :
    ¬ ∀ (s₀ : Session (Mini.State × Bool)) (vs : List (Visit (Mini.State × Bool)))
        (v : Visit (Mini.State × Bool)), s₀.New →
      (run (targetStep sampleDigest Mini.failing .split) (s₀, none) vs).1.exit = none →
      ((run (targetStep sampleDigest Mini.failing .split) (s₀, none) vs).1.state.inTransaction = true →
          (run (targetStep sampleDigest Mini.failing .split) (s₀, none) vs).2 =
            some (run (targetStep sampleDigest Mini.failing .split) (s₀, none) vs).1.checkouts) ∧
        ((run (targetStep sampleDigest Mini.failing .split) (s₀, none) vs).1.Engaged →
          KeepsTarget (run (targetStep sampleDigest Mini.failing .split) (s₀, none) vs).1 v
            (sessionStep sampleDigest Mini.failing .split
              (run (targetStep sampleDigest Mini.failing .split) (s₀, none) vs).1 v)) := by
  intro h
  have hkeeps := (h {} [.failing (.message (.query "BEGIN READ ONLY".toList))]
    (.failing (.message (.query "SELECT 1".toList))) ⟨⟨rfl, rfl, rfl⟩, rfl, rfl, rfl, rfl⟩
    (by decide +kernel)).2 (.inl (by decide +kernel))
  have hsame := hkeeps.inside (by decide +kernel)
  revert hsame
  decide +kernel

end Havuz
