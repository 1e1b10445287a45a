import Havuz.Relay.Queue
import Havuz.Server.Mini

/-!
# Waiting for a client that waits

Which messages are followed by a pump is decided by their tag alone, while what the server owes the
client depends on the sub-protocol: the replies a Flush asks for, and the end of a COPY that a simple
Query started, are owed without a sync point.
-/

namespace Havuz

open Lib Sql

variable {σ : Type} {sha256 : Bytes → Bytes} {srv : Server σ} {g : Group} {copying : σ → Prop}

/-- A conforming client reads everything it is owed before it goes on after this message: it asked for
the replies, or it ended the COPY of a simple Query. -/
def MustRead (s : Session σ) (msg : Message) : Prop :=
  isSyncPoint msg.tag = true ∨ msg.tag = byte 'H' ∨
    ((msg.tag = byte 'c' ∨ msg.tag = byte 'f') ∧ s.log.copyBy = some (byte 'Q'))

/-- The connection a session holds between two client messages, outside the COPY of a simple Query. -/
structure Paced (copying : σ → Prop) (s : Session σ) (c : PgBackend σ) : Prop where
  quiet : Quiet c.unread
  still : ¬ copying c.server
  /-- Nothing but Flush was forwarded since the last exchange. -/
  drained : (∀ f ∈ s.log.inFlight, f.msg.tag = byte 'H') → c.unread = []

/-- The condition under which a turn leaves no client waiting. -/
structure PacedTurn (srv : Server σ) (g : Group) (copying : σ → Prop) (s : Session σ) (v : Visit σ) :
    Prop where
  /-- The pools hand out drained connections. -/
  pools : ∀ p c, c ∈ v.shelves p → Drained copying c
  /-- In the COPY of a simple Query only data is sent: `CopyDone` and `CopyFail` do not come. -/
  copyData : ∀ msg, Forwards (v.relay s) v.turn msg → s.log.copyBy = some (byte 'Q') →
    msg.tag = byte 'd'
  /-- Flush does not come while something else is in flight. -/
  flush : ∀ msg, Forwards (v.relay s) v.turn msg → msg.tag = byte 'H' →
    ∀ f ∈ s.log.inFlight, f.msg.tag = byte 'H'
  /-- When the start of a COPY is unread, the next sync point is a Sync that finds the server still
  waiting for the data: nothing was sent after the COPY began. -/
  pipelinedCopy : ∀ msg co, Forwards (v.relay s) v.turn msg → s.held = some co →
    CopyWaits co.conn.unread → isSyncPoint msg.tag = true →
    msg.tag = byte 'S' ∧ (∃ front x, co.conn.unread = front ++ [x] ∧ ¬ CopyWaits front) ∧
      ∀ s' rs, srv.write co.conn.server msg = some (s', rs) → rs = []
  restarts : NoRestart srv g (v.relay s) v.turn

section

variable (ans : Answers srv copying)

include ans

theorem Ready.paced {s s₁ : Session σ} {v : Visit σ} {msg : Message} {co : Checkout σ}
    (hpools : ∀ p c, c ∈ v.shelves p → Drained copying c)
    (hheld : ∀ co, s.held = some co → Paced copying s co.conn)
    (h : Ready srv g (v.relay s) v.turn msg s₁ co) : Paced copying s₁ co.conn := by
  cases h with
  | held h =>
      have hp := hheld co h
      exact ⟨hp.quiet, hp.still, hp.drained⟩
  | borrowed hnone hs hoffer hsync =>
      obtain ⟨hd, -, -⟩ := (hoffer.drained ans hpools).syncParams ans hsync
      exact ⟨hd.quiet, hd.still, fun _ => hd.unread⟩

/-- The answer to a sync point is pumped off the queue to its end. -/
theorem Paced.pumped {s s₁ : Session σ} {v : Visit σ} {msg out : Message} {co : Checkout σ}
    {st : ClientStatements} {c c' c'' : PgBackend σ} {replies delivered : List Reply}
    {e : ExchangeEnd} (hp : Paced copying s₁ co.conn)
    (hcopy : CopyWaits co.conn.unread → msg.tag = byte 'S' ∧
      (∃ front x, co.conn.unread = front ++ [x] ∧ ¬ CopyWaits front) ∧
      ∀ s' rs, srv.write co.conn.server msg = some (s', rs) → rs = [])
    (hsends : Sends sha256 srv g (v.relay s) v.turn msg s₁ co out st c c' replies)
    (hreply : expectsReply msg = true)
    (hpump : c'.pumpUntilReady v.turn.clientAccepts = (some e, delivered, c'')) :
    c''.unread = [] ∧
      (¬ copying c''.server ∨
        (delivered.any fun d => opensCopy d.msg) = true ∧ msg.tag = byte 'Q') := by
  have hsync : isSyncPoint msg.tag = true := by rw [← expectsReply_eq, hreply]
  obtain ⟨rfl, rfl, rfl⟩ := outgoing_syncPoint hsync hsends.outgoing
  obtain ⟨s', rs, hsrv, hrep, hc'⟩ := writeForClient_spec hsends.written
  by_cases hwaits : CopyWaits co.conn.unread
  · -- The Sync has no answer; the pump stops at the start of the COPY, the last reply there is.
    obtain ⟨hS, ⟨front, x, hunread, hfront⟩, hsilent⟩ := hcopy hwaits
    obtain ⟨front', y, hq, -, hfront', hy, -, hc''⟩ := pumpUntilReady_some hpump
    have hrs : replies = [] := by rw [hrep, hsilent s' rs hsrv]; rfl
    rw [hc'] at hq
    simp only [hrs, List.append_nil] at hq
    refine ⟨?_, .inl ?_⟩
    · have hyCopy : opensCopy y.msg = true := by
        rcases hy with hy | hy
        · exact absurd (tag_of_transactionStatus hy) (hp.quiet y (by rw [hq]; simp))
        · exact hy.1
      by_contra hne
      obtain ⟨back, z, hback⟩ := List.eq_nil_or_concat c''.unread |>.resolve_left hne
      rw [hback, List.concat_eq_append, hunread] at hq
      have hfront'' : front = front' ++ y :: back := by
        have hcut : front ++ [x] = (front' ++ y :: back) ++ [z] := by rw [hq]; simp
        exact (List.append_inj' hcut rfl).1
      exact hfront ⟨y, by rw [hfront'']; simp, hyCopy⟩
    · rw [hc'', hc']
      intro hcopying
      rcases ans.copying_step hsrv hcopying with h | ⟨h, -⟩
      · exact hp.still h
      · rw [hS] at h
        exact absurd h (by decide)
  · obtain ⟨hunread, hserver, -, hdel, front, x, hreplies, -, -, -, hx⟩ :=
      ans.pump_drains hp.quiet hwaits hsends.written hpump
    refine ⟨hunread, ?_⟩
    have hmem : x.msg ∈ rs := by
      have hx' : x ∈ rs.map (Reply.mk .client) := by rw [← hrep, hreplies]; simp
      obtain ⟨y, hy, rfl⟩ := List.mem_map.mp hx'
      exact hy
    rcases hx with ⟨hz, -⟩ | ⟨hopens, -⟩
    · refine .inl ?_
      rw [hserver, hc']
      exact ans.ready_copying hsrv x.msg hmem (by rw [hz]; rfl)
    · refine .inr ⟨by rw [hdel, hreplies]; simp [hopens], ?_⟩
      rcases ans.opens_tag hsrv x.msg hmem hopens with h | h
      · exact h
      · rw [h] at hsync
        exact absurd hsync (by decide)

/-- A message that is not a sync point is forwarded and nothing is read: the queue stays quiet, and a
Flush with nothing in flight finds it empty. -/
theorem Paced.sent {s s₁ : Session σ} {v : Visit σ} {msg out : Message} {co : Checkout σ}
    {st : ClientStatements} {c c' : PgBackend σ} {replies : List Reply}
    (hp : Paced copying s₁ co.conn)
    (hsends : Sends sha256 srv g (v.relay s) v.turn msg s₁ co out st c c' replies)
    (hreply : expectsReply msg = false) :
    Paced copying (s₁.afterSend msg out st co c c' replies) c' := by
  have hsync : isSyncPoint msg.tag = false := by rw [← expectsReply_eq, hreply]
  have htag : out.tag = msg.tag := outgoing_tag hsends.outgoing
  obtain ⟨s', rs, hsrv, hrep, rfl⟩ := writeForClient_spec hsends.written
  obtain ⟨hq, hstill, -⟩ := (outgoing_asides hsends.outgoing).quiet ans hp.quiet hp.still
  have hsync' : isSyncPoint out.tag = false := by rw [htag, hsync]
  refine ⟨hq.append (by rw [hrep]; exact ans.quiet_replies hsrv hsync' hstill _), ?_, ?_⟩
  · intro hcopying
    rcases ans.copying_step hsrv hcopying with h | ⟨h, -⟩
    · exact hstill h
    · rw [h] at hsync'
      exact absurd hsync' (by decide)
  · intro hflush
    have hH : msg.tag = byte 'H' := hflush ⟨msg, out, c.server, s₁.log.received, replies⟩
      (by simp [Session.sent, Ledger.forward])
    have hbefore : co.conn.unread = [] := hp.drained fun f hf =>
      hflush f (by simp [Session.sent, Ledger.forward, hf])
    have hother : msg.tag ≠ byte 'P' ∧ msg.tag ≠ byte 'B' ∧ msg.tag ≠ byte 'D' ∧
        msg.tag ≠ byte 'C' := by
      rw [hH]
      decide
    have hout := hsends.outgoing
    rw [outgoing_other hother] at hout
    cases hout
    have hrs : rs = [] := ans.flush_silent hsrv hH
    simp [hbefore, hrep, hrs]

/-- What has to be shown at the ends of a paced turn. The second half of the session's property is
about this turn alone. -/
theorem PacedTurn.rule {s : Session σ} {v : Visit σ}
    (hheld : ∀ co, s.held = some co → s.log.copyBy ≠ some (byte 'Q') → Paced copying s co.conn)
    (ok : PacedTurn srv g copying s v) :
    TurnRule sha256 srv g (v.relay s) v.turn (fun _ => True) (fun _ => True) (fun s' =>
      (∀ co, s'.held = some co → s'.log.copyBy ≠ some (byte 'Q') → Paced copying s' co.conn) ∧
        ∀ msg co, Forwards (v.relay s) v.turn msg → MustRead s msg → s'.held = some co →
          co.conn.unread = []) := by
  have hother : ∀ {msg}, MustRead s msg → msg.tag ≠ byte 'P' ∧ msg.tag ≠ byte 'B' ∧
      msg.tag ≠ byte 'D' ∧ msg.tag ≠ byte 'C' := by
    rintro msg (h | h | ⟨h | h, -⟩)
    · simp only [isSyncPoint, Bool.or_eq_true, decide_eq_true_eq] at h
      rcases h with (h | h) | h <;> rw [h] <;> decide
    all_goals
      rw [h]
      decide
  have hready : ∀ {msg s₁ co}, Ready srv g (v.relay s) v.turn msg s₁ co →
      s.log.copyBy ≠ some (byte 'Q') → Paced copying s₁ co.conn := fun h hcopy =>
    h.paced ans ok.pools fun co hco => hheld co hco hcopy
  constructor
  case idle =>
    intro hevent _
    refine ⟨hheld, fun msg co hf => ?_⟩
    have hmsg := hf.event
    rw [hevent] at hmsg
    cases hmsg
  case leaves => exact fun _ _ _ _ _ _ _ => trivial
  case resets => exact fun _ _ _ _ _ _ _ => trivial
  case syncRefused => exact fun _ _ _ _ _ _ _ _ => trivial
  case sent => exact fun _ _ _ _ _ _ _ _ _ => trivial
  case policy =>
    intro msg reason hevent hpolicy
    refine ⟨fun co hco hcopy => ?_, fun msg' co hf => ?_⟩
    · rw [Session.held_refuse, Session.held_receive] at hco
      have hp := hheld co hco hcopy
      exact ⟨hp.quiet, hp.still, hp.drained⟩
    · -- The policy answered this message, so it was not forwarded.
      have hmsg := hf.event
      rw [hevent] at hmsg
      cases hmsg
      have haccepted := hf.accepted
      rw [hpolicy] at haccepted
      cases haccepted
  case refused =>
    intro msg s₁ co e hf hr he
    refine ⟨fun co' hco' hcopy => ?_, fun msg' co' hf' hmust _ => ?_⟩
    · rw [Session.held_refuse, hr.held_eq] at hco'
      cases hco'
      have hp := hready hr (hr.copyBy_eq ▸ hcopy)
      exact ⟨hp.quiet, hp.still, hp.drained⟩
    · cases hf.event.symm.trans hf'.event
      obtain ⟨hP, hB, hD, hC⟩ := hother hmust
      simp [rewritePrepared, hP, hB, hD, hC] at he
  case dropped =>
    intro msg s₁ co out st c hf hr hout hw hroute
    exact ⟨fun co' hco' => (by cases hco'), fun _ co' _ _ hco' => (by cases hco')⟩
  case pipelined =>
    intro msg s₁ co out st c c' replies hsends hreply
    have hsync : isSyncPoint msg.tag = false := by rw [← expectsReply_eq, hreply]
    by_cases hcopy : s.log.copyBy = some (byte 'Q')
    · -- Only data is sent, and the COPY goes on.
      have hd : msg.tag = byte 'd' := ok.copyData msg hsends.forwards hcopy
      refine ⟨fun co' _ hnot => ?_, fun msg' co' hf' hmust _ => ?_⟩
      · refine absurd ?_ hnot
        have hby : s₁.log.copyBy = some (byte 'Q') := by rw [hsends.ready.copyBy_eq]; exact hcopy
        have hneither : ¬ (msg.tag = byte 'c' ∨ msg.tag = byte 'f') := by rw [hd]; decide
        simp [Session.sent, Ledger.forward, hneither, hby]
      · cases hsends.forwards.event.symm.trans hf'.event
        rcases hmust with h | h | ⟨h, -⟩
        · rw [hsync] at h
          cases h
        · rw [hd] at h
          exact absurd h (by decide)
        · rw [hd] at h
          exact absurd h (by decide)
    · have hp := (hready hsends.ready hcopy).sent ans hsends hreply
      refine ⟨fun co' hco' _ => ?_, fun msg' co' hf' hmust hco' => ?_⟩
      · cases hco'
        exact hp
      · cases hco'
        cases hsends.forwards.event.symm.trans hf'.event
        rcases hmust with h | h | ⟨-, h⟩
        · rw [hsync] at h
          cases h
        · refine hp.drained fun f hf => ?_
          rcases List.mem_append.mp hf with hf | hf
          · refine ok.flush msg hf' h f ?_
            obtain ⟨results, ⟨-, hlog⟩ | ⟨-, hlog⟩⟩ := hsends.ready.log_eq
            · rw [hlog] at hf
              exact hf
            · rw [hlog] at hf
              cases hf
          · rw [List.mem_singleton] at hf
            rw [hf, h]
        · exact absurd h hcopy
  case kept =>
    intro msg s₁ co out st c c' replies e delivered c'' hsends hreply hpump hrel
    have hsync : isSyncPoint msg.tag = true := by rw [← expectsReply_eq, hreply]
    have hcopy : s.log.copyBy ≠ some (byte 'Q') := by
      intro hcopy
      rw [ok.copyData msg hsends.forwards hcopy] at hsync
      exact absurd hsync (by decide)
    have hp := hready hsends.ready hcopy
    have hwaits : CopyWaits co.conn.unread → msg.tag = byte 'S' ∧
        (∃ front x, co.conn.unread = front ++ [x] ∧ ¬ CopyWaits front) ∧
        ∀ s' rs, srv.write co.conn.server msg = some (s', rs) → rs = [] := by
      intro hw
      have hf := hsends.forwards
      cases hsends.ready with
      | held h => exact ok.pipelinedCopy msg co hf h hw hsync
      | borrowed hnone hs hoffer hsync' =>
          obtain ⟨hd, -, -⟩ := (hoffer.drained ans ok.pools).syncParams ans hsync'
          rw [hd.unread] at hw
          exact absurd hw not_copyWaits_nil
    obtain ⟨hempty, hstill⟩ := hp.pumped ans hwaits hsends hreply hpump
    refine ⟨fun co' hco' hnot => ?_, fun msg' co' _ _ hco' => ?_⟩
    · cases hco'
      refine ⟨?_, ?_, fun _ => ?_⟩
      · rw [Checkout.settled_unread, hempty]
        exact Quiet.nil
      · rw [Checkout.settled_server]
        rcases hstill with h | ⟨hopens, hQ⟩
        · exact h
        · -- The COPY of a simple Query is noted as such.
          refine absurd ?_ hnot
          show ((s₁.afterSend msg out st co c c' replies).answered delivered).log.copyBy = _
          rw [Session.copyBy_answered, if_pos hopens]
          simp [Session.sent, Ledger.forward, hQ]
      · rw [Checkout.settled_unread, hempty]
    · cases hco'
      rw [Checkout.settled_unread, hempty]
  case released =>
    intro msg s₁ co out st c c' replies e delivered c'' hsends hreply hpump hrel
    exact ⟨⟨fun co' hco' => (by cases hco'), fun _ co' _ _ hco' => (by cases hco')⟩, fun _ _ => trivial⟩
  case restarted =>
    intro msg s₁ co out st c c' replies c'' r' hsends hreply hpump hroute _ _
    exact (ok.restarts.absurd hsends hreply hpump hroute).elim

/-- **The relay never waits on a client that is waiting on it.** In every run whose turns meet
`PacedTurn`, a message after which the client waits leaves no reply unread on the backend the session
holds. -/
theorem never_waits {s : Session σ} {vs : List (Visit σ)} {v : Visit σ} {msg : Message}
    (hfresh : s.Fresh)
    (hrun : Along (sessionStep sha256 srv g) (PacedTurn srv g copying) s (vs ++ [v]))
    (hf : Forwards (v.relay (run (sessionStep sha256 srv g) s vs)) v.turn msg)
    (hmust : MustRead (run (sessionStep sha256 srv g) s vs) msg)
    (hexit : (run (sessionStep sha256 srv g) s (vs ++ [v])).exit = none) :
    ∀ co, (run (sessionStep sha256 srv g) s (vs ++ [v])).held = some co → co.conn.unread = [] := by
  obtain ⟨hbefore, hlast, -⟩ := Along.append.mp hrun
  rw [run_append, run_cons, run_nil] at hexit ⊢
  generalize hs' : run (sessionStep sha256 srv g) s vs = s' at *
  by_cases hgone : s'.exit = none
  · have hheld : ∀ co, s'.held = some co → s'.log.copyBy ≠ some (byte 'Q') →
        Paced copying s' co.conn := by
      subst hs'
      refine session_of_along
        (P := fun s => ∀ co, s.held = some co → s.log.copyBy ≠ some (byte 'Q') →
          Paced copying s co.conn) (fun co hco => ?_)
        (fun s v _ hs hok hexit => ((relayStep_kept (hok.rule ans hs)).session hexit).1)
        hbefore hgone
      rw [hfresh.held] at hco
      cases hco
    exact fun co hco => ((relayStep_kept (hlast.rule ans hheld)).session hexit).2 msg co hf hmust hco
  · rw [sessionStep_ended hgone] at hexit
    exact absurd hexit hgone

end

/-- A query inside a transaction block keeps its backend, and its answer is not left waiting. -/
theorem never_waits_begin :
    (run (sessionStep (fun _ => []) Mini.server .plain) {}
        ([] ++ [Visit.alone (.message (.query "BEGIN".toList))])).held.isSome = true ∧
      ∀ co, (run (sessionStep (fun _ => []) Mini.server .plain) {}
        ([] ++ [Visit.alone (.message (.query "BEGIN".toList))])).held = some co →
          co.conn.unread = [] := by
  refine ⟨by decide +kernel, ?_⟩
  have hf : Forwards (Visit.relay (Visit.alone (.message (.query "BEGIN".toList)))
      (run (sessionStep (fun _ => []) Mini.server .plain) {} [])) (Turn.plain (.message (.query "BEGIN".toList)))
      (.query "BEGIN".toList) := ⟨rfl, rfl, by decide⟩
  refine never_waits Mini.answers ⟨rfl, rfl, rfl⟩ ⟨?_, trivial⟩ hf (.inl rfl) (by decide +kernel)
  refine ⟨?_, ?_, ?_, ?_, noRestart_of_primary rfl fun _ => rfl⟩
  · intro p c hc
    cases hc
  · intro msg _ hcopy
    cases hcopy
  · intro msg _ _ f hf
    cases hf
  · intro msg co _ hco
    cases hco

/-- A `ParseComplete` that Flush asked for stays on the backend. -/
theorem not_never_waits :
    ¬ ∀ (vs : List (Visit Mini.State)) (v : Visit Mini.State) (msg : Message),
      Forwards (v.relay (run (sessionStep (fun _ => []) Mini.server .plain) {} vs)) v.turn msg →
      MustRead (run (sessionStep (fun _ => []) Mini.server .plain) {} vs) msg →
      (run (sessionStep (fun _ => []) Mini.server .plain) {} (vs ++ [v])).exit = none →
      ∀ co, (run (sessionStep (fun _ => []) Mini.server .plain) {} (vs ++ [v])).held = some co →
        co.conn.unread = [] := by
  intro h
  have hleft : ((run (sessionStep (fun _ => []) Mini.server .plain) {}
      ([Visit.alone (.message ⟨byte 'P', buildParse [] (Text.asBytes "SELECT 1".toList) [0, 0]⟩)] ++
        [Visit.alone (.message .flush)])).held.map fun co => co.conn.unread) =
      some [⟨.client, ⟨byte '1', []⟩⟩] := by decide +kernel
  obtain ⟨co, hco, hunread⟩ := Option.map_eq_some_iff.mp hleft
  have hempty := h _ _ .flush ⟨rfl, rfl, by decide⟩ (.inr (.inl rfl)) (by decide +kernel) co hco
  rw [hempty] at hunread
  cases hunread

end Havuz
