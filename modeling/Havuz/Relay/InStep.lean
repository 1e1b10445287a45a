import Havuz.Relay.Queue
import Havuz.Server.Mini

/-!
# One ReadyForQuery per sync point

A client counts: every Query, Sync and FunctionCall is answered with one `ReadyForQuery`. Two paths of
the relay answer a message without forwarding it, and both send a `ReadyForQuery` whatever the message
was, so a refused `Parse` or `Bind` puts the client one ahead.

The count is carried by two facts about the connection a session holds outside a COPY: no
`ReadyForQuery` is waiting on it, and once a message of a pipeline was answered with an error the
server skips everything up to the Sync.
-/

namespace Havuz

open Lib Sql

variable {σ : Type} {sha256 : Bytes → Bytes} {srv : Server σ} {g : Group}
  {copying skipping : σ → Prop}

namespace Session

/-- How many `ReadyForQuery` messages the client was sent. -/
def readies (s : Session σ) : Nat := s.log.sent.countP fun m => m.msg.tag = byte 'Z'

/-- How many messages the client sent that are answered with one. -/
def syncPoints (s : Session σ) : Nat := s.log.received.countP fun m => isSyncPoint m.tag

theorem syncPoints_receive (msg : Message) (s : Session σ) :
    (s.receive msg).syncPoints = s.syncPoints + if isSyncPoint msg.tag = true then 1 else 0 := by
  simp only [syncPoints, receive, note, List.countP_append, List.countP_singleton]

/-- A refusal is one `ReadyForQuery`. -/
theorem readies_refuse (msg : Message) (code text : Text) (status : TransactionStatus)
    (s : Session σ) :
    (s.refuse msg (.errorResponse "ERROR".toList code text) status).readies = s.readies + 1 := by
  have herror : (Message.errorResponse "ERROR".toList code text).tag ≠ byte 'Z' := by
    show byte 'E' ≠ byte 'Z'
    decide
  simp only [readies, log_refuse, List.countP_append, List.countP_singleton, Sent.msg, herror,
    decide_false, Message.readyForQuery, decide_true, if_true, Bool.false_eq_true, if_false, Nat.add_zero]

theorem syncPoints_refuse (msg error : Message) (status : TransactionStatus) (s : Session σ) :
    (s.refuse msg error status).syncPoints = s.syncPoints := by
  rw [syncPoints, log_refuse, syncPoints]

/-- What is delivered is counted, whatever the books make of it. -/
theorem readies_answered (delivered : List Reply) (s : Session σ) :
    (s.answered delivered).readies =
      s.readies + delivered.countP fun d => d.msg.tag = byte 'Z' := by
  have hsent : (s.answered delivered).log.sent = s.log.sent ++ delivered.map .relayed := by
    simp only [answered, note, deliver, Ledger.exchangeEnd]
    split <;> rfl
  rw [readies, hsent, List.countP_append, List.countP_map]
  rfl

theorem erred_answered (delivered : List Reply) (s : Session σ) :
    (s.answered delivered).log.erred = s.log.erred := by
  simp only [answered, note, deliver, Ledger.exchangeEnd]
  split <;> rfl

end Session

/-- What holds between two client messages. -/
structure InStep (copying skipping : σ → Prop) (s : Session σ) : Prop where
  counted : s.log.copyBy = none → s.readies = s.syncPoints
  quiet : s.log.copyBy = none → ∀ co, s.held = some co →
    Quiet co.conn.unread ∧ ¬ copying co.conn.server
  erred : s.log.erred = true → ∃ co, s.held = some co ∧ skipping co.conn.server

/-- The condition under which a turn keeps the client in step. -/
structure SteadyTurn (sha256 : Bytes → Bytes) (srv : Server σ) (g : Group) (copying : σ → Prop)
    (s : Session σ) (v : Visit σ) : Prop where
  /-- The pools hand out drained connections. -/
  pools : ∀ p c, c ∈ v.shelves p → Drained copying c
  /-- The policy refuses no message of the extended protocol. -/
  policy : ∀ msg, v.turn.event = .message msg → isSyncPoint msg.tag = false →
    refusedByPolicy s.policy msg = none
  /-- Every message of the extended protocol is well formed and names a statement the client has. -/
  known : ∀ msg known e, Forwards (v.relay s) v.turn msg →
    rewritePrepared sha256 msg s.statements known ≠ .error e
  /-- No sync point comes while the start of a COPY is unread. -/
  copyStarts : ∀ msg co, Forwards (v.relay s) v.turn msg → s.held = some co →
    CopyWaits co.conn.unread → isSyncPoint msg.tag = false
  /-- In a COPY only data and Flush come: its end does not. -/
  copyData : ∀ msg, Forwards (v.relay s) v.turn msg → s.log.copyBy ≠ none →
    msg.tag = byte 'd' ∨ msg.tag = byte 'H'
  /-- A replica takes what is forwarded to it. -/
  replicas : ∀ msg s₁ co out st c, Forwards (v.relay s) v.turn msg →
    Ready srv g (v.relay s) v.turn msg s₁ co → s₁.currentRoute.isReplica = true →
    outgoing sha256 srv (prepareParse srv) msg s₁.statements co.conn = .send out st c →
    srv.write c.server out ≠ none
  restarts : NoRestart srv g (v.relay s) v.turn

section

variable (ans : Answers srv copying) (skips : Skips srv skipping)

include skips in
/-- What the pooler writes on its own account is skipped as well. -/
theorem Asides.skipped {c c' : PgBackend σ} (h : Asides srv c c') (hc : skipping c.server) :
    c'.server = c.server := by
  refine Asides.invariant (I := fun x => x.server = c.server) ?_ h rfl
  intro c₁ c₂ haside hserver
  cases haside with
  | @write m _ _ htag hw =>
      obtain ⟨s', rs, hsrv, rfl⟩ := write_spec hw
      have hm : m.tag ≠ byte 'S' := by
        rcases htag with h | h | h <;> rw [h] <;> decide
      rw [hserver] at hsrv
      exact (skips.skip hc hm hsrv).1
  | read => exact hserver
  | cache => exact hserver

include skips in
/-- A message other than Sync, forwarded to a server that is skipping, has no effect there. -/
theorem Sends.skipped {r : Relay σ} {t : Turn} {msg out : Message} {s₁ : Session σ}
    {co : Checkout σ} {st : ClientStatements} {c c' : PgBackend σ} {replies : List Reply}
    (hsends : Sends sha256 srv g r t msg s₁ co out st c c' replies)
    (hskip : skipping co.conn.server) (hS : msg.tag ≠ byte 'S') :
    c.server = co.conn.server ∧ srv.write c.server out = some (c.server, []) ∧
      c'.server = co.conn.server ∧ replies = [] := by
  have hc : c.server = co.conn.server := (outgoing_asides hsends.outgoing).skipped skips hskip
  obtain ⟨s', rs, hsrv, hrep, rfl⟩ := writeForClient_spec hsends.written
  have hout : out.tag ≠ byte 'S' := by rw [outgoing_tag hsends.outgoing]; exact hS
  obtain ⟨rfl, rfl⟩ := skips.skip (hc ▸ hskip) hout hsrv
  exact ⟨hc, hsrv, hc, hrep⟩

/-- The books of a session that is ready: only the message was received. -/
theorem Ready.counts {r : Relay σ} {t : Turn} {msg : Message} {s₁ : Session σ} {co : Checkout σ}
    (h : Ready srv g r t msg s₁ co) :
    s₁.readies = r.session.readies ∧ s₁.log.erred = r.session.log.erred ∧
      s₁.syncPoints = r.session.syncPoints + if isSyncPoint msg.tag = true then 1 else 0 := by
  have hreceive := r.session.syncPoints_receive msg
  obtain ⟨results, ⟨-, hlog⟩ | ⟨-, hlog⟩⟩ := h.log_eq
  all_goals
    rw [← hreceive, Session.readies, Session.syncPoints, hlog]
    exact ⟨rfl, rfl, rfl⟩

include ans in
/-- Outside a COPY the connection a session is about to use has no `ReadyForQuery` waiting. -/
theorem InStep.ready {s s₁ : Session σ} {v : Visit σ} {msg : Message} {co : Checkout σ}
    (h : InStep copying skipping s) (hpools : ∀ p c, c ∈ v.shelves p → Drained copying c)
    (hcopy : s.log.copyBy = none) (hr : Ready srv g (v.relay s) v.turn msg s₁ co) :
    Quiet co.conn.unread ∧ ¬ copying co.conn.server := by
  cases hr with
  | held hco => exact h.quiet hcopy co hco
  | borrowed hnone hs hoffer hsync =>
      obtain ⟨hd, -, -⟩ := (hoffer.drained ans hpools).syncParams ans hsync
      exact ⟨hd.quiet, hd.still⟩

/-- A session whose pipeline failed holds the connection it failed on. -/
theorem InStep.skipping_ready {s s₁ : Session σ} {v : Visit σ} {msg : Message} {co : Checkout σ}
    (h : InStep copying skipping s) (herred : s.log.erred = true)
    (hr : Ready srv g (v.relay s) v.turn msg s₁ co) :
    s.held = some co ∧ skipping co.conn.server := by
  obtain ⟨co', hco', hskip⟩ := h.erred herred
  obtain ⟨results, ⟨hco, -⟩ | ⟨hnone, -⟩⟩ := hr.log_eq
  · have hsame : co' = co := by
      have hboth := hco'.symm.trans hco
      cases hboth
      rfl
    exact ⟨hco, hsame ▸ hskip⟩
  · have hboth := hco'.symm.trans hnone
    cases hboth

include ans skips in
/-- A message that is not a sync point. -/
theorem InStep.pipelined {s s₁ : Session σ} {v : Visit σ} {msg out : Message} {co : Checkout σ}
    {st : ClientStatements} {c c' : PgBackend σ} {replies : List Reply}
    (h : InStep copying skipping s) (ok : SteadyTurn sha256 srv g copying s v)
    (hsends : Sends sha256 srv g (v.relay s) v.turn msg s₁ co out st c c' replies)
    (hreply : expectsReply msg = false) :
    InStep copying skipping (s₁.afterSend msg out st co c c' replies) := by
  have hsync : isSyncPoint msg.tag = false := by rw [← expectsReply_eq, hreply]
  have hout : isSyncPoint out.tag = false := by rw [outgoing_tag hsends.outgoing, hsync]
  obtain ⟨hreadies, herred, hpoints⟩ := hsends.ready.counts
  obtain ⟨s', rs, hsrv, hrep, hc'⟩ := writeForClient_spec hsends.written
  -- In a COPY only data goes out, which neither ends it nor fails a pipeline.
  have hkeeps : s.log.copyBy ≠ none →
      (s₁.afterSend msg out st co c c' replies).log.copyBy ≠ none ∧ isExtended msg.tag = false := by
    intro hcopy
    have hby : s₁.log.copyBy = s.log.copyBy := hsends.ready.copyBy_eq
    have htag := ok.copyData msg hsends.forwards hcopy
    have hneither : ¬ (msg.tag = byte 'c' ∨ msg.tag = byte 'f') := by
      rcases htag with h | h <;> rw [h] <;> decide
    refine ⟨by simp [Session.sent, Ledger.forward, hneither, hby, hcopy], ?_⟩
    rcases htag with h | h <;> rw [h] <;> decide
  have hquiet : s.log.copyBy = none →
      Quiet c'.unread ∧ ¬ copying c'.server ∧ Quiet (rs.map (Reply.mk .client)) := by
    intro hcopy
    obtain ⟨hq, hstill⟩ := h.ready ans ok.pools hcopy hsends.ready
    obtain ⟨hq', hstill', -⟩ := (outgoing_asides hsends.outgoing).quiet ans hq hstill
    have hrs := ans.quiet_replies hsrv hout hstill' .client
    refine ⟨by rw [hc', hrep]; exact hq'.append hrs, ?_, hrs⟩
    rw [hc']
    intro hcopying
    rcases ans.copying_step hsrv hcopying with hbefore | ⟨hQ, -⟩
    · exact hstill' hbefore
    · rw [hQ] at hout
      exact absurd hout (by decide)
  refine ⟨fun hcopy => ?_, fun hcopy co' hco' => ?_, fun he => ?_⟩
  · have hnone : s.log.copyBy = none := by
      by_contra hne
      exact (hkeeps hne).1 hcopy
    show s₁.readies = s₁.syncPoints
    rw [hreadies, hpoints, hsync]
    simpa using h.counted hnone
  · have hnone : s.log.copyBy = none := by
      by_contra hne
      exact (hkeeps hne).1 hcopy
    cases hco'
    obtain ⟨hq, hstill, -⟩ := hquiet hnone
    exact ⟨hq, hstill⟩
  · have hS : msg.tag ≠ byte 'S' := by
      intro hS
      rw [hS] at hsync
      exact absurd hsync (by decide)
    refine ⟨⟨c', co.pool, co.discard⟩, rfl, ?_⟩
    by_cases hbefore : s.log.erred = true
    · obtain ⟨-, hskip⟩ := h.skipping_ready hbefore hsends.ready
      rw [(hsends.skipped skips hskip hS).2.2.1]
      exact hskip
    · -- The error came with this message.
      have hfresh : s₁.log.erred = false := by
        rw [herred]
        simpa using hbefore
      have hnew : isExtended msg.tag = true ∧ ∃ x ∈ replies, x.msg.tag = byte 'E' := by
        simpa [Session.sent, Ledger.forward, hS, hfresh] using he
      obtain ⟨hext, x, hx, hxE⟩ := hnew
      have hnone : s.log.copyBy = none := by
        by_contra hne
        rw [(hkeeps hne).2] at hext
        cases hext
      rw [hrep] at hx
      obtain ⟨y, hy, rfl⟩ := List.mem_map.mp hx
      have htags : out.tag = byte 'P' ∨ out.tag = byte 'B' ∨ out.tag = byte 'D' ∨
          out.tag = byte 'E' ∨ out.tag = byte 'C' := by
        rw [outgoing_tag hsends.outgoing]
        simpa [isExtended, or_assoc] using hext
      have hz : ∀ x ∈ rs, x.tag ≠ byte 'Z' := by
        intro x hx
        exact (hquiet hnone).2.2 ⟨.client, x⟩ (List.mem_map.mpr ⟨x, hx, rfl⟩)
      rw [hc']
      exact skips.enter hsrv htags ⟨y, hy, hxE⟩ hz

include ans skips in
/-- A sync point whose answer was pumped through. -/
theorem InStep.pumped {s s₁ : Session σ} {v : Visit σ} {msg out : Message} {co : Checkout σ}
    {st : ClientStatements} {c c' c'' : PgBackend σ} {replies delivered : List Reply}
    {e : ExchangeEnd} (h : InStep copying skipping s) (ok : SteadyTurn sha256 srv g copying s v)
    (hsends : Sends sha256 srv g (v.relay s) v.turn msg s₁ co out st c c' replies)
    (hreply : expectsReply msg = true)
    (hpump : c'.pumpUntilReady v.turn.clientAccepts = (some e, delivered, c'')) :
    c''.unread = [] ∧ (s.log.erred = true → msg.tag = byte 'S') ∧
      ((delivered.any fun d => opensCopy d.msg) = true ∨
        ¬ copying c''.server ∧
        ((s₁.afterSend msg out st co c c' replies).answered delivered).readies =
          ((s₁.afterSend msg out st co c c' replies).answered delivered).syncPoints) := by
  have hsync : isSyncPoint msg.tag = true := by rw [← expectsReply_eq, hreply]
  have hcopy : s.log.copyBy = none := by
    by_contra hne
    rcases ok.copyData msg hsends.forwards hne with h | h
    all_goals
      rw [h] at hsync
      exact absurd hsync (by decide)
  obtain ⟨rfl, rfl, rfl⟩ := outgoing_syncPoint hsync hsends.outgoing
  obtain ⟨hq, hstill⟩ := h.ready ans ok.pools hcopy hsends.ready
  have hwaits : ¬ CopyWaits co.conn.unread := by
    intro hw
    obtain ⟨hreadies, -, -⟩ := hsends.ready.counts
    cases hsends.ready with
    | held hco =>
        have hnot := ok.copyStarts _ co hsends.forwards hco hw
        rw [hsync] at hnot
        cases hnot
    | borrowed hnone hs hoffer hsync' =>
        obtain ⟨hd, -, -⟩ := (hoffer.drained ans ok.pools).syncParams ans hsync'
        rw [hd.unread] at hw
        exact not_copyWaits_nil hw
  obtain ⟨hunread, hserver, -, hdel, front, x, hreplies, hfront, -, -, hx⟩ :=
    ans.pump_drains hq hwaits hsends.written hpump
  obtain ⟨s', rs, hsrv, hrep, hc'⟩ := writeForClient_spec hsends.written
  refine ⟨hunread, fun herred => ?_, ?_⟩
  · by_contra hS
    obtain ⟨-, hskip⟩ := h.skipping_ready herred hsends.ready
    have hnil := (hsends.skipped skips hskip hS).2.2.2
    rw [hreplies] at hnil
    exact absurd hnil (by simp)
  · have hmem : x.msg ∈ rs := by
      have hx' : x ∈ rs.map (Reply.mk .client) := by rw [← hrep, hreplies]; simp
      obtain ⟨y, hy, rfl⟩ := List.mem_map.mp hx'
      exact hy
    rcases hx with ⟨hz, -⟩ | ⟨hopens, -⟩
    · refine .inr ⟨?_, ?_⟩
      · rw [hserver, hc']
        exact ans.ready_copying hsrv x.msg hmem (by rw [hz]; rfl)
      · -- One of the replies is a `ReadyForQuery`: the last one.
        have hone : delivered.countP (fun d => d.msg.tag = byte 'Z') = 1 := by
          have hzero : ∀ q, Quiet q → q.countP (fun d => d.msg.tag = byte 'Z') = 0 := by
            intro q hq
            rw [List.countP_eq_zero]
            intro d hd
            simpa using hq d hd
          have htag : x.msg.tag = byte 'Z' := by rw [hz]; rfl
          rw [hdel, hreplies, List.countP_append, List.countP_append, hzero _ hq, hzero _ hfront]
          simp [htag]
        obtain ⟨hreadies, -, hpoints⟩ := hsends.ready.counts
        have hcounted := h.counted hcopy
        rw [Session.readies_answered, hone, Session.syncPoints, Session.received_answered]
        show s₁.readies + 1 = s₁.syncPoints
        rw [hpoints, if_pos hsync]
        rw [hreadies, Visit.session_relay, hcounted]
    · exact .inl (by rw [hdel, hreplies]; simp [hopens])

/-- A sync point that is answered here gets its `ReadyForQuery`. -/
theorem InStep.refusedHere {s : Session σ} {msg : Message} {code text : Text}
    {status : TransactionStatus} (h : InStep copying skipping s)
    (hsync : isSyncPoint msg.tag = true) :
    InStep copying skipping ((s.receive msg).refuse msg
      (.errorResponse "ERROR".toList code text) status) := by
  have hext : isExtended msg.tag = false := by
    simp only [isSyncPoint, Bool.or_eq_true, decide_eq_true_eq] at hsync
    rcases hsync with (h | h) | h <;> rw [h] <;> decide
  refine ⟨fun hcopy => ?_, fun hcopy co hco => ?_, fun he => ?_⟩
  · rw [Session.log_refuse] at hcopy
    rw [Session.readies_refuse, Session.syncPoints_refuse, Session.syncPoints_receive, if_pos hsync,
      ← h.counted hcopy]
    rfl
  · rw [Session.log_refuse] at hcopy
    rw [Session.held_refuse, Session.held_receive] at hco
    exact h.quiet hcopy co hco
  · rw [Session.log_refuse] at he
    simp only [hext, Bool.or_false] at he
    rw [Session.held_refuse, Session.held_receive]
    exact h.erred he

/-- Once the Sync of a failed pipeline is answered the next one starts clean. -/
theorem Sends.not_erred {s s₁ : Session σ} {v : Visit σ} {msg out : Message} {co : Checkout σ}
    {st : ClientStatements} {c c' : PgBackend σ} {replies : List Reply}
    (hsends : Sends sha256 srv g (v.relay s) v.turn msg s₁ co out st c c' replies)
    (hreply : expectsReply msg = true) (hS : s.log.erred = true → msg.tag = byte 'S')
    (delivered : List Reply) :
    ((s₁.afterSend msg out st co c c' replies).answered delivered).log.erred = false := by
  have hsync : isSyncPoint msg.tag = true := by rw [← expectsReply_eq, hreply]
  have hext : isExtended msg.tag = false := by
    simp only [isSyncPoint, Bool.or_eq_true, decide_eq_true_eq] at hsync
    rcases hsync with (h | h) | h <;> rw [h] <;> decide
  rw [Session.erred_answered]
  by_cases hbefore : s.log.erred = true
  · simp [Session.sent, Ledger.forward, hS hbefore]
  · have hfresh : s₁.log.erred = false := by
      rw [hsends.ready.counts.2.1]
      simpa using hbefore
    simp [Session.sent, Ledger.forward, hext, hfresh]

/-- What a turn does to the backends of a session whose pipeline failed: what it forwards has no effect
where it goes, and the server of the connection it holds is as it was. -/
structure NoEffect (srv : Server σ) (s s' : Session σ) : Prop where
  forwarded : ∀ f ∈ s'.log.forwarded, f ∈ s.log.forwarded ∨
    srv.write f.server f.outgoing = some (f.server, [])
  server : s'.exit = none → ∀ co', s'.held = some co' →
    ∃ co, s.held = some co ∧ co'.conn.server = co.conn.server

/-- The turn forwards a message the server has to skip: an earlier one of the pipeline failed. -/
def Skippable (s : Session σ) (v : Visit σ) : Prop :=
  s.log.erred = true ∧ ∃ msg, Forwards (v.relay s) v.turn msg ∧ msg.tag ≠ byte 'S'

theorem Skippable.tag {s : Session σ} {v : Visit σ} {msg : Message} (h : Skippable s v)
    (hf : Forwards (v.relay s) v.turn msg) : msg.tag ≠ byte 'S' := by
  obtain ⟨-, msg', hf', hS⟩ := h
  cases hf.event.symm.trans hf'.event
  exact hS

include ans skips in
/-- The session after a sync point was answered, whether it keeps the connection or not. -/
theorem InStep.settled {s s₁ s' : Session σ} {v : Visit σ} {msg out : Message} {co : Checkout σ}
    {st : ClientStatements} {c c' c'' : PgBackend σ} {replies delivered : List Reply}
    {e : ExchangeEnd} (h : InStep copying skipping s) (ok : SteadyTurn sha256 srv g copying s v)
    (hsends : Sends sha256 srv g (v.relay s) v.turn msg s₁ co out st c c' replies)
    (hreply : expectsReply msg = true)
    (hpump : c'.pumpUntilReady v.turn.clientAccepts = (some e, delivered, c''))
    (hlog : s'.log = (Session.record true
      ((s₁.afterSend msg out st co c c' replies).answered delivered)).log)
    (hheld : ∀ co', s'.held = some co' →
      co'.conn.unread = c''.unread ∧ co'.conn.server = c''.server) :
    InStep copying skipping s' ∧ (Skippable s v → ∀ co', s'.held = some co' →
      ∃ co, s.held = some co ∧ co'.conn.server = co.conn.server) := by
  obtain ⟨hunread, hS, hcounts⟩ := h.pumped ans skips ok hsends hreply hpump
  have hdone : s'.log.copyBy = none → ¬ copying c''.server ∧ s'.readies = s'.syncPoints := by
    intro hcopy
    rw [Session.readies, Session.syncPoints, hlog]
    rcases hcounts with hopens | hdone
    · have hby : ((s₁.afterSend msg out st co c c' replies).answered delivered).log.copyBy =
          none := by
        rw [hlog] at hcopy
        exact hcopy
      rw [Session.copyBy_answered, if_pos hopens] at hby
      simp [Session.sent, Ledger.forward] at hby
    · exact hdone
  refine ⟨⟨fun hcopy => (hdone hcopy).2, fun hcopy co' hco' => ?_, fun he => ?_⟩, ?_⟩
  · obtain ⟨hq, hserver⟩ := hheld co' hco'
    rw [hq, hserver, hunread]
    exact ⟨Quiet.nil, (hdone hcopy).1⟩
  · have hclean := hsends.not_erred hreply hS delivered
    rw [hlog] at he
    exact absurd (hclean.symm.trans he) (by decide)
  · intro hskippable
    exact absurd (hS hskippable.1) (hskippable.tag hsends.forwards)

include ans skips in
/-- What has to be shown at the ends of a steady turn. -/
theorem SteadyTurn.rule {s : Session σ} {v : Visit σ} (h : InStep copying skipping s)
    (ok : SteadyTurn sha256 srv g copying s v) :
    TurnRule sha256 srv g (v.relay s) v.turn (fun _ => True)
      (fun f => Skippable s v → srv.write f.server f.outgoing = some (f.server, []))
      (fun s' => InStep copying skipping s' ∧ (Skippable s v → ∀ co', s'.held = some co' →
        ∃ co, s.held = some co ∧ co'.conn.server = co.conn.server)) := by
  constructor
  case idle =>
    intro hevent _
    exact ⟨h, fun _ co hco => ⟨co, hco, rfl⟩⟩
  case leaves => exact fun _ _ _ _ _ _ _ => trivial
  case resets => exact fun _ _ _ _ _ _ _ => trivial
  case syncRefused => exact fun _ _ _ _ _ _ _ _ => trivial
  case policy =>
    intro msg reason hevent hpolicy
    -- Only a Query is refused, and the refusal is its one `ReadyForQuery`.
    have hsync : isSyncPoint msg.tag = true := by
      by_contra hne
      have haccepted := ok.policy msg hevent (by simpa using hne)
      rw [Visit.session_relay, haccepted] at hpolicy
      cases hpolicy
    refine ⟨h.refusedHere hsync, fun _ co hco => ?_⟩
    rw [Session.held_refuse, Session.held_receive] at hco
    exact ⟨co, hco, rfl⟩
  case refused =>
    intro msg s₁ co e hf hr he
    refine absurd he ?_
    have hst : s₁.statements = s.statements := hr.statements_eq
    rw [hst]
    exact ok.known msg _ e hf
  case dropped =>
    intro msg s₁ co out st c hf hr hout hw hroute
    exact absurd hw (ok.replicas msg s₁ co out st c hf hr hroute hout)
  case sent =>
    intro msg s₁ co out st c c' replies hsends hskippable
    obtain ⟨-, hskip⟩ := h.skipping_ready hskippable.1 hsends.ready
    exact (hsends.skipped skips hskip (hskippable.tag hsends.forwards)).2.1
  case pipelined =>
    intro msg s₁ co out st c c' replies hsends hreply
    refine ⟨h.pipelined ans skips ok hsends hreply, fun hskippable co' hco' => ?_⟩
    cases hco'
    obtain ⟨hco, hskip⟩ := h.skipping_ready hskippable.1 hsends.ready
    exact ⟨co, hco, (hsends.skipped skips hskip (hskippable.tag hsends.forwards)).2.2.1⟩
  case kept =>
    intro msg s₁ co out st c c' replies e delivered c'' hsends hreply hpump _
    refine h.settled ans skips ok hsends hreply hpump rfl fun co' hco' => ?_
    cases hco'
    simp
  case released =>
    intro msg s₁ co out st c c' replies e delivered c'' hsends hreply hpump _
    refine ⟨?_, fun _ _ => trivial⟩
    refine h.settled ans skips ok hsends hreply hpump rfl fun co' hco' => ?_
    cases hco'
  case restarted =>
    intro msg s₁ co out st c c' replies c'' r' hsends hreply hpump hroute _ _
    exact (ok.restarts.absurd hsends hreply hpump hroute).elim

include ans skips in
/-- **One ReadyForQuery per sync point.** In every run whose turns are steady, outside a COPY the client
was sent as many `ReadyForQuery` messages as it sent sync points, and after an error in a pipeline its
messages up to the Sync have no effect on any server. -/
theorem one_ready_per_sync_point {s : Session σ} {vs : List (Visit σ)} (hfresh : s.Fresh)
    (hrun : Along (sessionStep sha256 srv g) (SteadyTurn sha256 srv g copying) s vs) :
    ((run (sessionStep sha256 srv g) s vs).exit = none →
      (run (sessionStep sha256 srv g) s vs).log.copyBy = none →
      (run (sessionStep sha256 srv g) s vs).readies =
        (run (sessionStep sha256 srv g) s vs).syncPoints) ∧
      ∀ v, SteadyTurn sha256 srv g copying (run (sessionStep sha256 srv g) s vs) v →
        Skippable (run (sessionStep sha256 srv g) s vs) v →
        NoEffect srv (run (sessionStep sha256 srv g) s vs)
          (run (sessionStep sha256 srv g) s (vs ++ [v])) := by
  have hstart : InStep copying skipping s := by
    refine ⟨fun _ => ?_, fun _ co hco => ?_, fun he => ?_⟩
    · rw [Session.readies, Session.syncPoints, hfresh.log]
      rfl
    · rw [hfresh.held] at hco
      cases hco
    · rw [hfresh.log] at he
      cases he
  have hinv : (run (sessionStep sha256 srv g) s vs).exit = none →
      InStep copying skipping (run (sessionStep sha256 srv g) s vs) :=
    session_of_along hstart
      (fun s v _ hs hok hexit => ((relayStep_kept (hok.rule ans skips hs)).session hexit).1) hrun
  refine ⟨fun hexit => (hinv hexit).counted, fun v hok hskippable => ?_⟩
  rw [run_append, run_cons, run_nil]
  by_cases hexit : (run (sessionStep sha256 srv g) s vs).exit = none
  · have hkept := relayStep_kept (hok.rule ans skips (hinv hexit))
    refine ⟨fun f hf => ?_, fun hgoes => (hkept.session hgoes).2 hskippable⟩
    rcases hkept.forwarded f hf with hold | hnew
    · exact .inl hold
    · exact .inr (hnew hskippable)
  · rw [sessionStep_ended hexit]
    exact ⟨fun f hf => .inl hf, fun h => absurd h hexit⟩

end

/-- On a pool without replicas, a well formed extended-protocol message of a writable session outside a
COPY is steady. -/
theorem SteadyTurn.alone {s : Session σ} {msg : Message} (hpolicy : s.policy.readOnly = none)
    (hroute : s.currentRoute.isReplica = false) (htx : s.routing.transactionRoute = none)
    (hcopy : s.log.copyBy = none) (hsync : isSyncPoint msg.tag = false)
    (hknown : ∀ known e, rewritePrepared sha256 msg s.statements known ≠ .error e) :
    SteadyTurn sha256 srv .plain copying s (.alone (.message msg)) := by
  have hchoose : ∀ msg', (chooseRoute .plain (.plain (.message msg)) msg'
      (Visit.relay (.alone (.message msg)) s)).1.isReplica = false := by
    intro msg'
    rw [chooseRoute_plain htx]
    rfl
  refine ⟨fun p c hc => ?_, fun msg _ _ => ?_, fun msg' known e hf => ?_, fun msg' co hf _ _ => ?_,
    fun msg' _ hnot => ?_, fun msg' s₁ co out st c _ hr hreplica => ?_,
    noRestart_of_primary hroute hchoose⟩
  · cases hc
  · rw [refusedByPolicy, hpolicy]
  · cases hf.event
    exact hknown known e
  · cases hf.event
    exact hsync
  · exact absurd hcopy hnot
  · rw [hr.not_replica hroute hchoose] at hreplica
    cases hreplica

/-- A `Parse` the server rejects, followed by an `Execute` that it skips. -/
theorem one_ready_per_sync_point_failed :
    (run (sessionStep (fun _ => []) Mini.server .plain) {}
        [.alone (.message ⟨byte 'P', buildParse [] (Text.asBytes "FAIL".toList) [0, 0]⟩)]).log.erred
          = true ∧
      NoEffect Mini.server
        (run (sessionStep (fun _ => []) Mini.server .plain) {}
          [.alone (.message ⟨byte 'P', buildParse [] (Text.asBytes "FAIL".toList) [0, 0]⟩)])
        (run (sessionStep (fun _ => []) Mini.server .plain) {}
          ([.alone (.message ⟨byte 'P', buildParse [] (Text.asBytes "FAIL".toList) [0, 0]⟩)] ++
            [.alone (.message ⟨byte 'E', [0, 0, 0, 0, 0]⟩)])) := by
  have hfailed : (run (sessionStep (fun _ => []) Mini.server .plain) {}
      [.alone (.message ⟨byte 'P', buildParse [] (Text.asBytes "FAIL".toList) [0, 0]⟩)]).log.erred
        = true := by decide +kernel
  have hparse : Along (sessionStep (fun _ => []) Mini.server .plain)
      (SteadyTurn (fun _ => []) Mini.server .plain fun s => s.mode = .copy true) {}
      [.alone (.message ⟨byte 'P', buildParse [] (Text.asBytes "FAIL".toList) [0, 0]⟩)] :=
    ⟨.alone rfl rfl rfl rfl (by decide) fun known e h => (by cases h), trivial⟩
  have hrun := one_ready_per_sync_point Mini.answers Mini.skips ⟨rfl, rfl, rfl⟩ hparse
  refine ⟨hfailed, hrun.2 _ (.alone ?_ ?_ ?_ ?_ (by decide) ?_)
    ⟨hfailed, _, ⟨rfl, ?_, by decide⟩, by decide⟩⟩
  · decide +kernel
  · decide +kernel
  · decide +kernel
  · decide +kernel
  · exact fun known e h => (by cases h)
  · decide +kernel

/-- A `Parse` that the policy refuses and its Sync are answered with two `ReadyForQuery` messages. -/
theorem not_one_ready_per_sync_point :
    ¬ ∀ (s : Session Mini.State) (vs : List (Visit Mini.State)), s.Fresh →
      (run (sessionStep (fun _ => []) Mini.server .plain) s vs).exit = none →
      (run (sessionStep (fun _ => []) Mini.server .plain) s vs).log.copyBy = none →
      (run (sessionStep (fun _ => []) Mini.server .plain) s vs).readies =
        (run (sessionStep (fun _ => []) Mini.server .plain) s vs).syncPoints := by
  intro h
  have hcounts := h { policy := { readOnly := some .user } }
    [.alone (.message ⟨byte 'P', buildParse [] (Text.asBytes "BEGIN READ WRITE".toList) [0, 0]⟩),
      .alone (.message .sync)] ⟨rfl, rfl, rfl⟩ (by decide +kernel) (by decide +kernel)
  revert hcounts
  decide +kernel

end Havuz
