import Havuz.Relay.Queue
import Havuz.Server.Mini

/-!
# Clean return to the pool

A connection may be handed to the next client once everything written to it has been answered up to a
`ReadyForQuery` outside a transaction, and nothing is left to read (`PgBackend.Clean`).

`Parse`, `Bind` and the like are forwarded without reading their replies, so the obligation spans
turns. Between two client messages no `ReadyForQuery` is waiting (`HeldOk.quiet`), and when nothing is
in flight the queue is empty (`HeldOk.settled`).
-/

namespace Havuz

open Lib Sql

variable {σ ι : Type} {sha256 : Bytes → Bytes} {srv : Server σ} {g : Group}

/-- Everything written since the checkout began was answered up to a `ReadyForQuery` outside a
transaction that was read, and no reply is left. -/
structure PgBackend.Clean (c : PgBackend σ) : Prop where
  unread : c.unread = []
  ready : c.trace = [] ∨ ∃ o, c.trace.getLast? = some (.got ⟨o, .readyForQuery .idle⟩)

/-- What is known of a connection on a shelf. -/
structure Rested (copying idle : σ → Prop) (c : PgBackend σ) : Prop where
  clean : c.Clean
  idle : idle c.server
  still : ¬ copying c.server

theorem Rested.settled {copying idle : σ → Prop} (co : Checkout σ) (p : ClientParams)
    (e : ExchangeEnd) (h : Rested copying idle co.conn) :
    Rested copying idle (co.settled p e).conn :=
  ⟨⟨by simpa using h.clean.unread, by simpa using h.clean.ready⟩, by simpa using h.idle,
    by simpa using h.still⟩

/-- What is known of the connection a session holds between two client messages. -/
structure HeldOk (copying idle : σ → Prop) (s : Session σ) (co : Checkout σ) : Prop where
  kept : co.discard = false
  fit : co.conn.broken = false
  quiet : Quiet co.conn.unread
  settled : s.log.inFlight = [] →
    co.conn.unread = [] ∧ ¬ copying co.conn.server ∧
      (s.state.inTransaction = false → Rested copying idle co.conn)

/-- The condition under which a turn keeps the pool clean. -/
structure CleanTurn (srv : Server σ) (g : Group) (copying : σ → Prop) (opensBlock : Text → Prop)
    (r : Relay σ) (t : Turn) : Prop where
  /-- A session that is neither pinned nor inside a transaction does not end in the middle of a
  pipeline. -/
  exits : Exits r t → ∀ co, r.session.held = some co → r.session.state.pin = none →
    r.session.state.inTransaction = false → r.session.log.inFlight = []
  /-- While the server takes the data of a COPY that a simple Query started, or the start of a COPY is
  unread, nothing is forwarded that is answered with a `ReadyForQuery`. -/
  copies : ∀ msg co, Forwards r t msg → r.session.held = some co →
    copying co.conn.server ∨ CopyWaits co.conn.unread →
    (msg.tag = byte 'd' ∨ msg.tag = byte 'H' ∨ msg.tag = byte 'S') ∧
      ∀ s' rs, srv.write co.conn.server msg = some (s', rs) → ∀ x ∈ rs, x.tag ≠ byte 'Z'
  /-- The parameter statements replayed on a checkout open no transaction block. -/
  params : ∀ msg c, Forwards r t msg → r.session.held = none → Offered srv g r.shelves c →
    ¬ opensBlock (PgBackend.batchSql (r.session.params.delta c.appliedParams))
  restarts : NoRestart srv g r t

section

variable {copying idle : σ → Prop} {opensBlock : Text → Prop} (ans : Answers srv copying)
  (blocks : Blocks srv idle opensBlock)

include ans blocks

/-- Carrying the client's parameters over leaves a rested connection rested. -/
theorem Rested.syncParams {c c' : PgBackend σ} {p : ClientParams} {sync : PgBackend.ParamSync}
    (hc : Rested copying idle c) (hp : ¬ opensBlock (PgBackend.batchSql (p.delta c.appliedParams)))
    (h : c.syncParams srv p = (.ok sync, c')) :
    Rested copying idle c' ∧ c'.broken = c.broken := by
  obtain ⟨hdrained, hb, rfl | ⟨s', rs, status, hsrv, hz, hserver, htrace⟩⟩ :=
    Drained.syncParams ans ⟨hc.clean.unread, hc.still⟩ h
  · exact ⟨hc, rfl⟩
  · have hstatus : status = .idle := blocks.query hsrv hc.idle hp hz
    subst hstatus
    refine ⟨⟨⟨hdrained.unread, .inr ⟨.pooler, htrace⟩⟩, ?_, hdrained.still⟩, hb⟩
    rw [hserver]
    exact (blocks.status hsrv hz).mpr rfl

/-- A reset that reports the connection cleaned leaves it rested. -/
theorem Rested.reset {c c' : PgBackend σ} (hq : Quiet c.unread) (h : c.reset srv = (true, c')) :
    Rested copying idle c' := by
  unfold PgBackend.reset at h
  split at h
  case isTrue => cases h
  case isFalse =>
    simp only [Prod.mk.injEq, Bool.not_eq_true'] at h
    obtain ⟨hb, rfl⟩ := h
    -- The second query ran, so the first one left the connection fit.
    generalize hc₁ : c.simpleQuery srv "ROLLBACK".toList = c₁ at hb ⊢
    generalize hc₂ : c₁.simpleQuery srv c₁.discardStatement = c₂ at hb ⊢
    have hb₁ : c₁.broken = false := (simpleQuery_cases hc₂ hb).1
    obtain ⟨s₁, rs₁, st₁, hw₁, hE₁, hz₁, hs₁, hu₁, -, -⟩ := ans.simpleQuery_fit hq hc₁ hb₁
    have hidle₁ : st₁ = .idle := blocks.rollback hw₁ hE₁ hz₁
    have hidle : idle c₁.server := by
      rw [hs₁]
      exact (blocks.status hw₁ hz₁).mpr hidle₁
    obtain ⟨s₂, rs₂, st₂, hw₂, -, hz₂, hs₂, hu₂, -, ht₂⟩ :=
      ans.simpleQuery_fit (by rw [hu₁]; exact Quiet.nil) hc₂ hb
    have hopens : ¬ opensBlock c₁.discardStatement := by
      unfold PgBackend.discardStatement
      split
      · exact blocks.discard.1
      · exact blocks.discard.2
    have hidle₂ : st₂ = .idle := blocks.query hw₂ hidle hopens hz₂
    subst hidle₂
    refine ⟨⟨hu₂, .inr ⟨.pooler, ht₂⟩⟩, ?_, ?_⟩
    · show idle c₂.server
      rw [hs₂]
      exact (blocks.status hw₂ hz₂).mpr rfl
    · show ¬ copying c₂.server
      rw [hs₂]
      exact ans.ready_copying hw₂ _ hz₂ rfl

omit ans blocks in
/-- What a pool hands out is at rest and fit. -/
theorem Offered.rested {sh : Shelves σ} {c : PgBackend σ} (blocks : Blocks srv idle opensBlock)
    (ans : Answers srv copying) (hshelves : ∀ p c, c ∈ sh p → Rested copying idle c)
    (h : Offered srv g sh c) : Rested copying idle c ∧ c.broken = false := by
  cases h with
  | shelved hmem hfit =>
      have hrest := hshelves _ _ hmem
      exact ⟨⟨⟨hrest.clean.unread, .inl rfl⟩, hrest.idle, hrest.still⟩, hfit⟩
  | opened n => exact ⟨⟨⟨rfl, .inl rfl⟩, blocks.start n, ans.start n⟩, rfl⟩

/-- A session about to forward a message holds a connection in good order. -/
theorem Ready.heldOk {r : Relay σ} {t : Turn} {msg : Message} {s : Session σ} {co : Checkout σ}
    (hshelves : ∀ p c, c ∈ r.shelves p → Rested copying idle c)
    (hheld : ∀ co, r.session.held = some co → HeldOk copying idle r.session co)
    (hparams : ∀ c, r.session.held = none → Offered srv g r.shelves c →
      ¬ opensBlock (PgBackend.batchSql (r.session.params.delta c.appliedParams)))
    (h : Ready srv g r t msg s co) : HeldOk copying idle s co := by
  cases h with
  | held h =>
      have hok := hheld co h
      refine ⟨hok.kept, hok.fit, hok.quiet, fun hempty => ?_⟩
      obtain ⟨hunread, hstill, hrested⟩ := hok.settled hempty
      exact ⟨hunread, hstill, fun htx => hrested (by simpa using htx)⟩
  | @borrowed s c conn sync pool hnone hs hoffer hsync hok =>
      have hc := hoffer.rested blocks ans hshelves
      have hopens : ¬ opensBlock (PgBackend.batchSql
          (((r.session.receive msg).arrive msg).params.delta c.appliedParams)) := by
        rw [Session.delta_arrive]
        exact hparams c hnone hoffer
      obtain ⟨hrest, hb⟩ := hc.1.syncParams ans blocks hopens hsync
      refine ⟨rfl, hb.trans hc.2, ?_, fun _ => ⟨hrest.clean.unread, hrest.still, fun _ => hrest⟩⟩
      rw [hrest.clean.unread]
      exact Quiet.nil

/-- The answer to a sync point, pumped through: the queue stays quiet, and if the exchange is over the
connection is at rest. -/
theorem HeldOk.pumped {r : Relay σ} {t : Turn} {msg out : Message} {s : Session σ}
    {co : Checkout σ} {st : ClientStatements} {c c' c'' : PgBackend σ}
    {replies delivered : List Reply} {e : ExchangeEnd} (hok : HeldOk copying idle s co)
    (hcopies : copying co.conn.server ∨ CopyWaits co.conn.unread →
      ∀ s' rs, srv.write co.conn.server msg = some (s', rs) → ∀ x ∈ rs, x.tag ≠ byte 'Z')
    (hsends : Sends sha256 srv g r t msg s co out st c c' replies)
    (hreply : expectsReply msg = true)
    (hpump : c'.pumpUntilReady t.clientAccepts = (some e, delivered, c'')) :
    c''.broken = false ∧ Quiet c''.unread ∧
      ((delivered.any fun d => opensCopy d.msg) = true ∧ e.status = .inTransaction ∨
        (delivered.any fun d => opensCopy d.msg) = false ∧ c''.unread = [] ∧
          ¬ copying c''.server ∧ (e.status = .idle → Rested copying idle c'')) := by
  have hsync : isSyncPoint msg.tag = true := by rw [← expectsReply_eq, hreply]
  obtain ⟨rfl, rfl, rfl⟩ := outgoing_syncPoint hsync hsends.outgoing
  obtain ⟨s', rs, hsrv, hrep, hc'⟩ := writeForClient_spec hsends.written
  by_cases hcopy : copying co.conn.server ∨ CopyWaits co.conn.unread
  · -- No `ReadyForQuery` is in the queue, so the pump stopped at the start of a COPY.
    have hq : Quiet c'.unread := by
      rw [hc', hrep]
      refine hok.quiet.append fun x hx => ?_
      obtain ⟨y, hy, rfl⟩ := List.mem_map.mp hx
      exact hcopies hcopy s' rs hsrv y hy
    obtain ⟨front, x, hunread, hdel, -, hx, -, hc''⟩ := pumpUntilReady_some hpump
    rw [hunread] at hq
    refine ⟨by rw [hc'', hc']; exact hok.fit, fun y hy => hq y (by simp [hy]), .inl ?_⟩
    rcases hx with hx | hx
    · exact absurd (tag_of_transactionStatus hx) (hq x (by simp))
    · exact ⟨by rw [hdel]; simp [hx.1], hx.2⟩
  · obtain ⟨hstill, hwaits⟩ := not_or.mp hcopy
    obtain ⟨hunread, hserver, hbroken, hdel, front, x, hreplies, hfront, hnocopy, htrace, hx⟩ :=
      ans.pump_drains hok.quiet hwaits hsends.written hpump
    have hmem : x.msg ∈ rs := by
      have hx' : x ∈ rs.map (Reply.mk .client) := by rw [← hrep, hreplies]; simp
      obtain ⟨y, hy, rfl⟩ := List.mem_map.mp hx'
      exact hy
    refine ⟨hbroken.trans hok.fit, by rw [hunread]; exact Quiet.nil, ?_⟩
    rcases hx with ⟨hz, hnotcopy⟩ | ⟨hcopies', hstatus⟩
    · have hz' : Message.readyForQuery e.status ∈ rs := hz ▸ hmem
      have hserver' : c''.server = s' := by rw [hserver, hc']
      have hstill'' : ¬ copying c''.server := by
        rw [hserver']
        exact ans.ready_copying hsrv _ hz' rfl
      refine .inr ⟨?_, hunread, hstill'', fun hidle => ⟨⟨hunread, .inr ⟨x.origin, ?_⟩⟩, ?_, hstill''⟩⟩
      · rw [hdel, hreplies, List.any_eq_false]
        intro y hy
        rcases List.mem_append.mp hy with hy | hy
        · intro h
          exact hwaits ⟨y, hy, h⟩
        · rcases List.mem_append.mp hy with hy | hy
          · intro h
            exact hnocopy ⟨y, hy, h⟩
          · rw [List.mem_singleton] at hy
            rw [hy, hnotcopy]
            simp
      · rw [htrace, ← hidle, ← hz]
      · rw [hserver']
        exact (blocks.status hsrv hz').mpr hidle
    · exact .inl ⟨by rw [hdel, hreplies]; simp [hcopies'], hstatus⟩

/-- What has to be shown at the ends of a clean turn. -/
theorem CleanTurn.rule {r : Relay σ} {t : Turn}
    (hshelves : ∀ p c, c ∈ r.shelves p → Rested copying idle c)
    (hheld : ∀ co, r.session.held = some co → HeldOk copying idle r.session co)
    (ok : CleanTurn srv g copying opensBlock r t) :
    TurnRule sha256 srv g r t (Rested copying idle) (fun _ => True)
      (fun s => ∀ co, s.held = some co → HeldOk copying idle s co) := by
  have hready : ∀ {msg s co}, Forwards r t msg → Ready srv g r t msg s co →
      HeldOk copying idle s co := fun hf h =>
    h.heldOk ans blocks hshelves hheld (fun c => ok.params _ c hf)
  have hcopies : ∀ {msg s co}, Forwards r t msg → Ready srv g r t msg s co →
      copying co.conn.server ∨ CopyWaits co.conn.unread →
      (msg.tag = byte 'd' ∨ msg.tag = byte 'H' ∨ msg.tag = byte 'S') ∧
        ∀ s' rs, srv.write co.conn.server msg = some (s', rs) → ∀ x ∈ rs, x.tag ≠ byte 'Z' := by
    intro msg s co hf h hcopy
    have hok := hready hf h
    cases h with
    | held h => exact ok.copies msg co hf h hcopy
    | borrowed hnone hs hoffer hsync hsyncOk =>
        -- A connection just borrowed is at rest.
        obtain ⟨hunread, hstill, -⟩ := hok.settled rfl
        rcases hcopy with hcopy | hcopy
        · exact absurd hcopy hstill
        · rw [hunread] at hcopy
          exact absurd hcopy not_copyWaits_nil
  constructor
  case idle => exact fun _ _ => hheld
  case sent => exact fun _ _ _ _ _ _ _ _ _ => trivial
  case leaves =>
    intro co hexits hco hpin htx _ _
    exact ((hheld co hco).settled (ok.exits hexits co hco hpin htx)).2.2 htx
  case resets =>
    intro co c hexits hco _ _ hreset
    exact Rested.reset ans blocks (hheld co hco).quiet hreset
  case policy =>
    intro msg reason hevent hpolicy co hco
    rw [Session.held_refuse, Session.held_receive] at hco
    have hok := hheld co hco
    exact ⟨hok.kept, hok.fit, hok.quiet, hok.settled⟩
  case syncRefused =>
    intro msg c conn detail hf hnone hoffer hsync
    have hrest := (hoffer.rested blocks ans hshelves).1
    have hopens : ¬ opensBlock (PgBackend.batchSql
        (((r.session.receive msg).arrive msg).params.delta c.appliedParams)) := by
      rw [Session.delta_arrive]
      exact ok.params msg c hf hnone hoffer
    exact (hrest.syncParams ans blocks hopens hsync).1
  case refused =>
    intro msg s co e hf hr he co' hco'
    rw [Session.held_refuse, hr.held_eq] at hco'
    cases hco'
    have hok := hready hf hr
    exact ⟨hok.kept, hok.fit, hok.quiet, hok.settled⟩
  case dropped =>
    intro msg s co out st c hf hr hout hw hroute co' hco'
    cases hco'
  case pipelined =>
    intro msg s co out st c c' replies hsends hreply co' hco'
    cases hco'
    have hok := hready hsends.forwards hsends.ready
    have hsync : isSyncPoint msg.tag = false := by rw [← expectsReply_eq, hreply]
    obtain ⟨s', rs, hsrv, hrep, rfl⟩ := writeForClient_spec hsends.written
    have hc : Quiet c.unread ∧ c.broken = false ∧ Quiet replies := by
      by_cases hcopy : copying co.conn.server ∨ CopyWaits co.conn.unread
      · -- COPY data and Flush go out as they are.
        obtain ⟨htag, hz⟩ := hcopies hsends.forwards hsends.ready hcopy
        have hother : msg.tag ≠ byte 'P' ∧ msg.tag ≠ byte 'B' ∧ msg.tag ≠ byte 'D' ∧
            msg.tag ≠ byte 'C' := by
          rcases htag with h | h | h <;> rw [h] <;> decide
        have hout := hsends.outgoing
        rw [outgoing_other hother] at hout
        cases hout
        refine ⟨hok.quiet, hok.fit, fun x hx => ?_⟩
        rw [hrep] at hx
        obtain ⟨y, hy, rfl⟩ := List.mem_map.mp hx
        exact hz s' rs hsrv y hy
      · obtain ⟨hq, hstill, hb⟩ := (outgoing_asides hsends.outgoing).quiet ans hok.quiet
          (fun h => hcopy (.inl h))
        refine ⟨hq, hb.trans hok.fit, ?_⟩
        rw [hrep]
        exact ans.quiet_replies hsrv (by rw [outgoing_tag hsends.outgoing, hsync]) hstill _
    refine ⟨hok.kept, hc.2.1, hc.1.append hc.2.2, fun hempty => ?_⟩
    exact absurd hempty (by simp [Session.sent, Ledger.forward])
  case kept =>
    intro msg s co out st c c' replies e delivered c'' hsends hreply hpump hrel co' hco'
    cases hco'
    have hok := hready hsends.forwards hsends.ready
    obtain ⟨hb, hq, hend⟩ := hok.pumped ans blocks
      (fun h => (hcopies hsends.forwards hsends.ready h).2) hsends hreply hpump
    refine ⟨hok.kept, by simpa using hb, by simpa using hq, fun hempty => ?_⟩
    have hempty : ((s.afterSend msg out st co c c' replies).answered delivered).log.inFlight = [] :=
      hempty
    rw [Session.inFlight_answered] at hempty
    rcases hend with ⟨hcopy, -⟩ | ⟨hcopy, hunread, hstill, hrest⟩
    · simp [hcopy, Session.sent, Ledger.forward] at hempty
    · refine ⟨by simpa using hunread, by simpa using hstill, fun htx => ?_⟩
      rw [Session.inTransaction_settle] at htx
      exact (hrest (by simpa using htx)).settled _ _ _
  case released =>
    intro msg s co out st c c' replies e delivered c'' hsends hreply hpump hrel
    have hok := hready hsends.forwards hsends.ready
    obtain ⟨hb, hq, hend⟩ := hok.pumped ans blocks
      (fun h => (hcopies hsends.forwards hsends.ready h).2) hsends hreply hpump
    refine ⟨fun co' hco' => (by cases hco'), fun _ _ => ?_⟩
    have hidle : e.status = .idle := by
      have htx := (SessionState.isReleasable_iff.mp hrel).2.2.2
      rw [Session.inTransaction_settle] at htx
      simpa using htx
    rcases hend with ⟨-, hstatus⟩ | ⟨-, -, -, hrest⟩
    · rw [hidle] at hstatus
      cases hstatus
    · exact (hrest hidle).settled ⟨c'', co.pool, co.discard⟩ _ _
  case restarted =>
    intro msg s co out st c c' replies c'' r' hsends hreply hpump hroute
    exact (ok.restarts.absurd hsends hreply hpump hroute).elim

/-- **Clean return to the pool.** In every run of any number of sessions whose turns are all clean,
every connection on a shelf can be handed to the next client. -/
theorem clean_return [DecidableEq ι] {w : World ι σ} {ls : List (ι × Turn)}
    (hfresh : w.Fresh)
    (hrun : Along (worldStep sha256 srv g)
      (fun w l => CleanTurn srv g copying opensBlock (w.relay l.1) l.2) w ls) :
    ∀ p c, c ∈ (run (worldStep sha256 srv g) w ls).shelves p → c.Clean := by
  have hinv : (run (worldStep sha256 srv g) w ls).Holds (Rested copying idle) (fun _ => True)
      (fun s => ∀ co, s.held = some co → HeldOk copying idle s co) := by
    refine World.holds_of_along hfresh (fun s hs => hs.no_held) ?_ hrun
    · intro r t hshelves hexit hheld ok
      exact ok.rule ans blocks hshelves hheld
  exact fun p c hc => (hinv.shelves p c hc).clean

end

/-- A simple query comes and goes, and its connection is on the shelf. -/
theorem clean_return_query :
    (run (worldStep (fun _ => []) Mini.server .plain) (World.new Unit Mini.State)
        [((), .plain (.message (.query "SELECT 1".toList)))]).shelves none ≠ [] ∧
      ∀ p c, c ∈ (run (worldStep (fun _ => []) Mini.server .plain) (World.new Unit Mini.State)
        [((), .plain (.message (.query "SELECT 1".toList)))]).shelves p → c.Clean := by
  refine ⟨by decide +kernel, clean_return Mini.answers Mini.blocks (World.new_fresh _ _) ⟨?_, trivial⟩⟩
  refine ⟨?_, ?_, ?_, noRestart_of_primary rfl fun _ => rfl⟩
  · intro _ co hco
    cases hco
  · intro msg co _ hco
    cases hco
  · intro msg c _ _ hoffer
    cases hoffer with
    | shelved hmem => cases hmem
    | opened n =>
        have hnothing : Mini.queryText (PgBackend.batchSql []) ≠ Text.asBytes "BEGIN".toList := by
          decide
        exact hnothing

/-- A client that disconnects after a `Parse` leaves its `ParseComplete` to the next one. -/
theorem not_clean_return :
    ¬ ∀ (w : World Unit Mini.State) (ls : List (Unit × Turn)), w.Fresh →
      ∀ p c, c ∈ (run (worldStep (fun _ => []) Mini.server .plain) w ls).shelves p → c.Clean := by
  intro h
  have hdirty : ((run (worldStep (fun _ => []) Mini.server .plain) (World.new Unit Mini.State)
      [((), .plain (.message ⟨byte 'P', buildParse [] (Text.asBytes "SELECT 1".toList) [0, 0]⟩)),
        ((), .plain .readError)]).shelves none).map PgBackend.unread =
      [[⟨.client, ⟨byte '1', []⟩⟩]] := by decide +kernel
  obtain ⟨c, hc, hunread⟩ := List.map_eq_singleton_iff.mp hdirty
  have hclean := h _ _ (World.new_fresh _ _) none c (by rw [hc]; exact List.mem_singleton_self c)
  rw [hclean.unread] at hunread
  cases hunread

end Havuz
