import Mathlib.Logic.Relation
import Havuz.Relay.Turn
import Havuz.Server

/-!
# The reply queue of a connection

What the relay does to a connection on its own account (`Asides`), what a pump takes off the queue, and
how the queue stands between two client messages: with no `ReadyForQuery` in it.
-/

namespace Havuz

open Lib Sql

variable {σ : Type}

/-! ## Message tags -/

/-- A pump follows exactly the messages that are answered with `ReadyForQuery`. -/
theorem expectsReply_eq (msg : Message) : expectsReply msg = isSyncPoint msg.tag := by
  obtain ⟨tag, body⟩ := msg
  unfold expectsReply classify isSyncPoint
  simp only
  by_cases hX : tag = byte 'X'
  · subst hX
    rfl
  by_cases hQ : tag = byte 'Q'
  · subst hQ
    cases sqlPinReason (textBody body) <;> rfl
  by_cases hP : tag = byte 'P'
  · subst hP
    cases (parseMessageSql body).bind sqlPinReason <;> rfl
  by_cases hS : tag = byte 'S'
  · subst hS
    rfl
  by_cases hF : tag = byte 'F'
  · subst hF
    rfl
  simp only [hX, hQ, hP, hS, hF, if_false, decide_false, Bool.or_false]
  split_ifs <;> rfl

section Outgoing

variable {sha256 : Bytes → Bytes} {srv : Server σ}
  {onParse : Bytes → PgBackend σ → Except ProtoError Unit × PgBackend σ} {msg out : Message}
  {st st' : ClientStatements} {c c' : PgBackend σ}

/-- A message that names no statement is passed on as it is, over an untouched connection. -/
theorem outgoing_other
    (h : msg.tag ≠ byte 'P' ∧ msg.tag ≠ byte 'B' ∧ msg.tag ≠ byte 'D' ∧ msg.tag ≠ byte 'C') :
    outgoing sha256 srv onParse msg st c = .send msg st c := by
  obtain ⟨hP, hB, hD, hC⟩ := h
  simp [outgoing, rewritePrepared, hP, hB, hD, hC]

variable (sha256 srv onParse msg st c) in
/-- How a message that goes out was rewritten, and what that did to the connection. -/
inductive Sending : Message → ClientStatements → PgBackend σ → Prop
  | passed {st' : ClientStatements} (h : rewritePrepared sha256 msg st c.statements = .ok (.unchanged, st')) :
      Sending msg st' c
  | replaced {m : Message} {st' : ClientStatements}
      (h : rewritePrepared sha256 msg st c.statements = .ok (.replace m, st')) : Sending m st' c
  | parsed {name : Bytes} {m : Message} {st' : ClientStatements} {c' : PgBackend σ}
      (h : rewritePrepared sha256 msg st c.statements = .ok (.parse name m, st'))
      (hroom : onParse name c = (.ok (), c')) : Sending m st' c'
  | closed {name clientName : Bytes} {m : Message} {st' : ClientStatements}
      (h : rewritePrepared sha256 msg st c.statements = .ok (.closeStatement name clientName m, st')) :
      Sending m (st'.forget clientName) { c with statements := c.statements.remove name }
  | replayed {parse name : Bytes} {m : Message} {st' : ClientStatements} {c' : PgBackend σ}
      (h : rewritePrepared sha256 msg st c.statements = .ok (.replayThen parse name m, st'))
      (hreplay : c.replayParse srv parse name = (.ok (), c')) : Sending m st' c'

theorem outgoing_cases (h : outgoing sha256 srv onParse msg st c = .send out st' c') :
    Sending sha256 srv onParse msg st c out st' c' := by
  unfold outgoing at h
  split at h
  case h_1 => cases h
  case h_2 st'' hr =>
    cases h
    exact .passed hr
  case h_3 m st'' hr =>
    cases h
    exact .replaced hr
  case h_4 name m st'' hr =>
    split at h
    case h_1 c'' hroom =>
      cases h
      exact .parsed hr hroom
    case h_2 => cases h
  case h_5 name clientName m st'' hr =>
    cases h
    exact .closed hr
  case h_6 parse name m st'' hr =>
    split at h
    case h_1 c'' hreplay =>
      cases h
      exact .replayed hr hreplay
    case h_2 => cases h

theorem outgoing_tag (h : outgoing sha256 srv onParse msg st c = .send out st' c') :
    out.tag = msg.tag := by
  cases outgoing_cases h with
  | passed => rfl
  | replaced hr => exact (rewritePrepared_cases hr).message_tag rfl
  | parsed hr => exact (rewritePrepared_cases hr).message_tag rfl
  | closed hr => exact (rewritePrepared_cases hr).message_tag rfl
  | replayed hr => exact (rewritePrepared_cases hr).message_tag rfl

/-- A sync point names no statement. -/
theorem outgoing_syncPoint (htag : isSyncPoint msg.tag = true)
    (h : outgoing sha256 srv onParse msg st c = .send out st' c') :
    out = msg ∧ st' = st ∧ c' = c := by
  have hother : msg.tag ≠ byte 'P' ∧ msg.tag ≠ byte 'B' ∧ msg.tag ≠ byte 'D' ∧
      msg.tag ≠ byte 'C' := by
    refine ⟨?_, ?_, ?_, ?_⟩ <;>
    · intro h
      rw [h] at htag
      revert htag
      decide
  rw [outgoing_other hother] at h
  cases h
  exact ⟨rfl, rfl, rfl⟩

end Outgoing

/-! ## What the relay does on its own account -/

/-- One thing the relay does to a connection besides forwarding: write a `Parse`, a `Close` or a
`Flush` of its own, read the answer off the queue, or change the statement cache. -/
inductive Aside (srv : Server σ) : PgBackend σ → PgBackend σ → Prop
  | write {m : Message} {c c' : PgBackend σ}
      (htag : m.tag = byte 'P' ∨ m.tag = byte 'C' ∨ m.tag = byte 'H')
      (h : c.write srv .pooler m = some c') : Aside srv c c'
  | read {β : Type} (stop : Message → Option β) (c : PgBackend σ) : Aside srv c (c.read stop).2.2
  | cache (statements : BackendStatements) (c : PgBackend σ) : Aside srv c { c with statements }

/-- Any number of asides. -/
abbrev Asides (srv : Server σ) : PgBackend σ → PgBackend σ → Prop :=
  Relation.ReflTransGen (Aside srv)

section Asides

variable {srv : Server σ} {c c' : PgBackend σ}

theorem closeStatement_asides (name : Bytes) (c : PgBackend σ) :
    Asides srv c (c.closeStatement srv name).2 := by
  unfold PgBackend.closeStatement
  simp only
  split
  case h_1 => exact .refl
  case h_2 c₁ h₁ =>
    have hclose : Asides srv c c₁ := .single (.write (.inr (.inl rfl)) h₁)
    split
    case h_1 => exact hclose
    case h_2 c₂ h₂ =>
      have hflush : Asides srv c c₂ := hclose.tail (.write (.inr (.inr rfl)) h₂)
      split
      case isTrue => exact hflush
      case isFalse =>
        have hread : Asides srv c (c₂.read PgBackend.closeStop).2.2 := hflush.tail (.read _ _)
        split
        case h_1 c₃ h₃ => rwa [h₃] at hread
        case h_2 c₃ h₃ => rwa [h₃] at hread

theorem replayParse_asides (parse name : Bytes) (c : PgBackend σ) :
    Asides srv c (c.replayParse srv parse name).2 := by
  unfold PgBackend.replayParse
  split
  case h_1 => exact .refl
  case h_2 c₁ h₁ =>
    have hparse : Asides srv c c₁ := .single (.write (.inl rfl) h₁)
    split
    case h_1 => exact hparse
    case h_2 c₂ h₂ =>
      have hflush : Asides srv c c₂ := hparse.tail (.write (.inr (.inr rfl)) h₂)
      split
      case isTrue => exact hflush
      case isFalse =>
        have hread : Asides srv c (c₂.read PgBackend.parseStop).2.2 := hflush.tail (.read _ _)
        split
        case h_1 c₃ h₃ => rwa [h₃] at hread
        case h_2 c₃ h₃ => rwa [h₃] at hread
        case h_3 c₃ h₃ =>
          rw [h₃] at hread
          split
          case h_1 statements evicted hins =>
            exact (hread.tail (.cache statements c₃)).trans (closeStatement_asides _ _)
          case h_2 statements hins => exact hread.tail (.cache statements c₃)

theorem freeName_asides (name : Bytes) (c : PgBackend σ) :
    Asides srv c (freeName srv name c).2 := by
  unfold freeName
  split
  case isTrue =>
    have hclose : Asides srv c (c.closeStatement srv name).2 := closeStatement_asides name c
    split
    case h_1 c₁ h₁ =>
      rw [h₁] at hclose
      exact hclose.tail (.cache _ c₁)
    case h_2 c₁ h₁ => rwa [h₁] at hclose
  case isFalse => exact .refl

theorem prepareParse_asides (name : Bytes) (c : PgBackend σ) :
    Asides srv c (prepareParse srv name c).2 := by
  unfold prepareParse
  have hfree : Asides srv c (freeName srv name c).2 := freeName_asides name c
  split
  case h_1 c₁ h₁ => rwa [h₁] at hfree
  case h_2 c₁ h₁ =>
    rw [h₁] at hfree
    split
    case h_1 statements evicted hins =>
      exact (hfree.tail (.cache statements c₁)).trans (closeStatement_asides _ _)
    case h_2 statements hins => exact hfree.tail (.cache statements c₁)

/-- Whatever precedes a forwarded message is an aside. -/
theorem outgoing_asides {sha256 : Bytes → Bytes} {msg out : Message} {st st' : ClientStatements}
    (h : outgoing sha256 srv (prepareParse srv) msg st c = .send out st' c') : Asides srv c c' := by
  cases outgoing_cases h with
  | passed => exact .refl
  | replaced => exact .refl
  | @parsed name m st'' c'' hr hroom =>
      have hprep : Asides srv c (prepareParse srv name c).2 := prepareParse_asides name c
      rwa [hroom] at hprep
  | closed => exact .single (.cache _ c)
  | @replayed parse name m st'' c'' hr hreplay =>
      have hasides : Asides srv c (c.replayParse srv parse name).2 := replayParse_asides parse name c
      rwa [hreplay] at hasides

/-- What `close_statement` wrote, and where it stopped. -/
theorem closeStatement_cases {name : Bytes} {res : Except ProtoError Unit}
    (h : c.closeStatement srv name = (res, c')) :
    (c.write srv .pooler (PgBackend.closeMessage name) = none ∧ c' = c ∧ res ≠ .ok ()) ∨
      ∃ c₁, c.write srv .pooler (PgBackend.closeMessage name) = some c₁ ∧
        ((c₁.write srv .pooler .flush = none ∧ c' = c₁ ∧ res ≠ .ok ()) ∨
          ∃ c₂, c₁.write srv .pooler .flush = some c₂ ∧
            ((c' = c₂ ∧ res ≠ .ok ()) ∨
              (c' = (c₂.read PgBackend.closeStop).2.2 ∧
                (res = .ok () ↔ (c₂.read PgBackend.closeStop).1 = some ())))) := by
  unfold PgBackend.closeStatement at h
  simp only at h
  split at h
  case h_1 hclose =>
    cases h
    exact .inl ⟨hclose, rfl, by simp⟩
  case h_2 c₁ hclose =>
    refine .inr ⟨c₁, hclose, ?_⟩
    split at h
    case h_1 hflush =>
      cases h
      exact .inl ⟨hflush, rfl, by simp⟩
    case h_2 c₂ hflush =>
      refine .inr ⟨c₂, hflush, ?_⟩
      split at h
      case isTrue =>
        cases h
        exact .inl ⟨rfl, by simp⟩
      case isFalse =>
        split at h
        case h_1 read c₃ hread =>
          cases h
          exact .inr ⟨by rw [hread], by simp [hread]⟩
        case h_2 read c₃ hread =>
          cases h
          exact .inr ⟨by rw [hread], by simp [hread]⟩

/-- A `replay_parse` that succeeded: the `Parse` and the Flush were written, a `ParseComplete` was read
off the queue, and the name was recorded. -/
theorem replayParse_ok {parse name : Bytes} (h : c.replayParse srv parse name = (.ok (), c')) :
    ∃ c₁ c₂, c.write srv .pooler ⟨byte 'P', parse⟩ = some c₁ ∧
      c₁.write srv .pooler .flush = some c₂ ∧
      (c₂.read PgBackend.parseStop).1 = some (.ok ()) ∧
      match (c₂.read PgBackend.parseStop).2.2.statements.insert name with
      | (statements, some evicted) =>
          PgBackend.closeStatement srv evicted
            { (c₂.read PgBackend.parseStop).2.2 with statements } = (.ok (), c')
      | (statements, none) => c' = { (c₂.read PgBackend.parseStop).2.2 with statements } := by
  unfold PgBackend.replayParse at h
  split at h
  case h_1 => cases h
  case h_2 c₁ hparse =>
    split at h
    case h_1 => cases h
    case h_2 c₂ hflush =>
      refine ⟨c₁, c₂, hparse, hflush, ?_⟩
      split at h
      case isTrue => cases h
      case isFalse =>
        split at h
        case h_1 => cases h
        case h_2 => cases h
        case h_3 read c₃ hread =>
          rw [hread]
          refine ⟨rfl, ?_⟩
          split at h
          case h_1 statements evicted hinsert =>
            simp only [hinsert]
            exact h
          case h_2 statements hinsert =>
            simp only [hinsert]
            cases h
            rfl

/-- The induction rule for asides: what one of them preserves, all of them do. -/
theorem Asides.invariant {I : PgBackend σ → Prop}
    (hstep : ∀ c c', Aside srv c c' → I c → I c') (h : Asides srv c c') (hc : I c) : I c' := by
  induction h with
  | refl => exact hc
  | tail _ hstep' ih => exact hstep _ _ hstep' ih

end Asides

/-! ## Pumping -/

section PumpLoop

variable {accepts : Option Nat} {errored : Bool} {r : Reply} {q : List Reply}

theorem pumpLoop_dead : pumpLoop (some 0) errored (r :: q) = ⟨none, [], [r], q⟩ := by
  simp [pumpLoop]

theorem pumpLoop_ready {status : TransactionStatus} (hacc : accepts ≠ some 0)
    (hstatus : r.msg.transactionStatus = some status) :
    pumpLoop accepts errored (r :: q) =
      ⟨some ⟨status, errored || r.msg.tag = byte 'E'⟩, [r], [r], q⟩ := by
  simp [pumpLoop, hacc, hstatus]

theorem pumpLoop_copy (hacc : accepts ≠ some 0) (hstatus : r.msg.transactionStatus = none)
    (hcopy : opensCopy r.msg = true) :
    pumpLoop accepts errored (r :: q) =
      ⟨some ⟨.inTransaction, errored || r.msg.tag = byte 'E'⟩, [r], [r], q⟩ := by
  simp [pumpLoop, hacc, hstatus, hcopy]

theorem pumpLoop_next (hacc : accepts ≠ some 0) (hstatus : r.msg.transactionStatus = none)
    (hcopy : opensCopy r.msg = false) :
    pumpLoop accepts errored (r :: q) =
      { pumpLoop (accepts.map (· - 1)) (errored || r.msg.tag = byte 'E') q with
        delivered := r :: (pumpLoop (accepts.map (· - 1)) (errored || r.msg.tag = byte 'E') q).delivered
        read := r :: (pumpLoop (accepts.map (· - 1)) (errored || r.msg.tag = byte 'E') q).read } := by
  simp [pumpLoop, hacc, hstatus, hcopy]

/-- A pump that ends well delivers everything up to the first terminal reply, that reply included, and
leaves the rest. -/
theorem pumpLoop_some {e : ExchangeEnd} (h : (pumpLoop accepts errored q).ending = some e) :
    ∃ front x, q = front ++ x :: (pumpLoop accepts errored q).rest ∧
      (pumpLoop accepts errored q).delivered = front ++ [x] ∧
      (pumpLoop accepts errored q).read = front ++ [x] ∧
      (∀ y ∈ front, y.msg.transactionStatus = none ∧ opensCopy y.msg = false) ∧
      (x.msg.transactionStatus = some e.status ∨
        (opensCopy x.msg = true ∧ e.status = .inTransaction)) ∧
      e.errored = (errored || (front ++ [x]).any fun y => y.msg.tag = byte 'E') := by
  induction q generalizing accepts errored with
  | nil => simp [pumpLoop] at h
  | cons r q ih =>
      by_cases hacc : accepts = some 0
      · rw [hacc, pumpLoop_dead] at h
        cases h
      cases hstatus : r.msg.transactionStatus with
      | some status =>
          rw [pumpLoop_ready hacc hstatus] at h ⊢
          cases h
          exact ⟨[], r, rfl, rfl, rfl, by simp, .inl hstatus, by simp⟩
      | none =>
          cases hcopy : opensCopy r.msg with
          | true =>
              rw [pumpLoop_copy hacc hstatus hcopy] at h ⊢
              cases h
              exact ⟨[], r, rfl, rfl, rfl, by simp, .inr ⟨hcopy, rfl⟩, by simp⟩
          | false =>
              rw [pumpLoop_next hacc hstatus hcopy] at h ⊢
              obtain ⟨front, x, hq, hd, hread, hfront, hx, herr⟩ := ih h
              refine ⟨r :: front, x, ?_, ?_, ?_, ?_, hx, ?_⟩
              · rw [List.cons_append, ← hq]
              · rw [hd, List.cons_append]
              · rw [hread, List.cons_append]
              · intro y hy
                rcases List.mem_cons.mp hy with rfl | hy
                · exact ⟨hstatus, hcopy⟩
                · exact hfront y hy
              · rw [herr, List.cons_append, List.any_cons, Bool.or_assoc]

/-- A pump that delivers nothing and fails met a dead client or an empty queue. -/
theorem pumpLoop_none (h : (pumpLoop accepts errored q).ending = none)
    (hd : (pumpLoop accepts errored q).delivered = []) : accepts = some 0 ∨ q = [] := by
  cases q with
  | nil => exact .inr rfl
  | cons r q =>
      by_cases hacc : accepts = some 0
      · exact .inl hacc
      cases hstatus : r.msg.transactionStatus with
      | some status =>
          rw [pumpLoop_ready hacc hstatus] at h
          cases h
      | none =>
          cases hcopy : opensCopy r.msg with
          | true =>
              rw [pumpLoop_copy hacc hstatus hcopy] at h
              cases h
          | false =>
              rw [pumpLoop_next hacc hstatus hcopy] at hd
              cases hd

end PumpLoop

section Pump

variable {c c' : PgBackend σ} {accepts : Option Nat} {e : ExchangeEnd} {delivered : List Reply}

theorem pumpUntilReady_some (h : c.pumpUntilReady accepts = (some e, delivered, c')) :
    ∃ front x, c.unread = front ++ x :: c'.unread ∧ delivered = front ++ [x] ∧
      (∀ y ∈ front, y.msg.transactionStatus = none ∧ opensCopy y.msg = false) ∧
      (x.msg.transactionStatus = some e.status ∨
        (opensCopy x.msg = true ∧ e.status = .inTransaction)) ∧
      e.errored = delivered.any (fun y => y.msg.tag = byte 'E') ∧
      c' = { c with unread := c'.unread, trace := c.trace ++ delivered.map .got } := by
  simp only [PgBackend.pumpUntilReady, Prod.mk.injEq] at h
  obtain ⟨hend, rfl, rfl⟩ := h
  obtain ⟨front, x, hq, hd, hread, hfront, hx, herr⟩ := pumpLoop_some hend
  exact ⟨front, x, hq, hd, hfront, hx, by simp [herr, hd], by rw [hd, hread]⟩

theorem pumpUntilReady_none (h : c.pumpUntilReady accepts = (none, [], c')) :
    accepts = some 0 ∨ c.unread = [] := by
  simp only [PgBackend.pumpUntilReady, Prod.mk.injEq] at h
  exact pumpLoop_none h.1 h.2.1

end Pump

/-! ## Writing -/

section Write

variable {srv : Server σ} {o : Origin} {m : Message} {c c' : PgBackend σ}

/-- A write that succeeds appends the server's answer to the queue. -/
theorem write_spec (h : c.write srv o m = some c') :
    ∃ s' rs, srv.write c.server m = some (s', rs) ∧
      c' = { c with server := s', unread := c.unread ++ rs.map (⟨o, ·⟩),
                    trace := c.trace ++ [.wrote o c.server m] } := by
  unfold PgBackend.write at h
  split at h
  case h_1 => cases h
  case h_2 s' rs hw =>
    cases h
    exact ⟨s', rs, hw, rfl⟩

theorem write_none (h : c.write srv o m = none) : srv.write c.server m = none := by
  unfold PgBackend.write at h
  split at h
  case h_1 hw => exact hw
  case h_2 => cases h

theorem writeForClient_spec {replies : List Reply}
    (h : writeForClient srv m c = some (c', replies)) :
    ∃ s' rs, srv.write c.server m = some (s', rs) ∧ replies = rs.map (⟨.client, ·⟩) ∧
      c' = { c with server := s', unread := c.unread ++ replies,
                    trace := c.trace ++ [.wrote .client c.server m] } := by
  unfold writeForClient at h
  cases hw : c.write srv .client m with
  | none => simp [hw] at h
  | some c₁ =>
      simp only [hw, Option.map_some, Option.some.injEq, Prod.mk.injEq] at h
      obtain ⟨rfl, rfl⟩ := h
      obtain ⟨s', rs, hsrv, rfl⟩ := write_spec hw
      exact ⟨s', rs, hsrv, by simp, by simp⟩

end Write

/-- Who asked for a reply is not part of the message. -/
@[simp] theorem msg_comp_mk (o : Origin) : (Reply.msg ∘ fun m => ⟨o, m⟩) = id := rfl

/-! ## The queue between two client messages -/

/-- No `ReadyForQuery` is waiting to be read. -/
def Quiet (q : List Reply) : Prop := ∀ x ∈ q, x.msg.tag ≠ byte 'Z'

/-- The start of a COPY is waiting to be read. -/
def CopyWaits (q : List Reply) : Prop := ∃ x ∈ q, opensCopy x.msg = true

theorem Quiet.nil : Quiet [] := by simp [Quiet]

theorem not_copyWaits_nil : ¬ CopyWaits [] := by simp [CopyWaits]

theorem Quiet.append {q q' : List Reply} (h : Quiet q) (h' : Quiet q') : Quiet (q ++ q') := by
  intro x hx
  rcases List.mem_append.mp hx with hx | hx
  · exact h x hx
  · exact h' x hx

theorem Quiet.right {q q' : List Reply} (h : Quiet (q ++ q')) : Quiet q' :=
  fun x hx => h x (List.mem_append_right q hx)

/-- A reply with a transaction status is a `ReadyForQuery`. -/
theorem tag_of_transactionStatus {m : Message} {status : TransactionStatus}
    (h : m.transactionStatus = some status) : m.tag = byte 'Z' := by
  rw [Message.eq_readyForQuery_of_transactionStatus h]
  rfl

/-- Whoever stops at a terminal reply that was not in the queue before the server's answer has read
everything. -/
theorem Answers.split_terminal {srv : Server σ} {copying : σ → Prop} (ans : Answers srv copying)
    {s s' : σ} {m : Message} {rs : List Message} (hw : srv.write s m = some (s', rs)) {o : Origin}
    {q front rest : List Reply} {x : Reply} (hq : x ∉ q) (hx : isTerminal x.msg = true) (h : q ++ rs.map (⟨o, ·⟩) = front ++ x :: rest) :
    rest = [] ∧ ∃ f, front = q ++ f ∧ rs.map (⟨o, ·⟩) = f ++ [x] := by
  obtain ⟨f, hfront, hrs⟩ | ⟨b, hq', hrest⟩ := List.append_eq_append_iff.mp h
  · have hmsgs : rs = f.map Reply.msg ++ x.msg :: rest.map Reply.msg := by
      have hmap := congrArg (List.map Reply.msg) hrs
      simpa using hmap
    have hback : rest.map Reply.msg = [] := ans.terminal_last hw _ _ _ hmsgs hx
    have hrest : rest = [] := List.map_eq_nil_iff.mp hback
    subst hrest
    exact ⟨rfl, f, hfront, hrs⟩
  · -- The terminal reply cannot lie in `q`.
    cases b with
    | nil =>
        have hmsgs : rs = [] ++ x.msg :: rest.map Reply.msg := by
          have hmap := congrArg (List.map Reply.msg) hrest
          simpa using hmap.symm
        have hback : rest.map Reply.msg = [] := ans.terminal_last hw _ _ _ hmsgs hx
        have hrest' : rest = [] := List.map_eq_nil_iff.mp hback
        subst hrest'
        refine ⟨rfl, [], by simpa using hq'.symm, by simpa using hrest.symm⟩
    | cons y b =>
        rw [List.cons_append, List.cons.injEq] at hrest
        exact absurd (by rw [hq', hrest.1]; simp) hq

section Queue

variable {srv : Server σ} {copying : σ → Prop}

/-- Outside the COPY of a simple Query only a sync point is answered with `ReadyForQuery`. -/
theorem Answers.quiet_replies (ans : Answers srv copying) {s s' : σ} {m : Message}
    {rs : List Message} (hw : srv.write s m = some (s', rs)) (htag : isSyncPoint m.tag = false)
    (hs : ¬ copying s) (o : Origin) : Quiet (rs.map (⟨o, ·⟩)) := by
  intro x hx hz
  obtain ⟨y, hy, rfl⟩ := List.mem_map.mp hx
  rcases ans.ready_tag hw y hy hz with h | h
  · rw [htag] at h
    cases h
  · exact hs h

/-- Asides leave a quiet queue quiet, start no COPY and break nothing. -/
theorem Asides.quiet (ans : Answers srv copying) {c c' : PgBackend σ} (h : Asides srv c c')
    (hq : Quiet c.unread) (hc : ¬ copying c.server) :
    Quiet c'.unread ∧ ¬ copying c'.server ∧ c'.broken = c.broken := by
  refine Asides.invariant (I := fun x => Quiet x.unread ∧ ¬ copying x.server ∧ x.broken = c.broken)
    ?_ h ⟨hq, hc, rfl⟩
  rintro c₁ c₂ haside ⟨hq, hc, hb⟩
  cases haside with
  | @write m _ _ htag hw =>
      have hsync : isSyncPoint m.tag = false := by
        rcases htag with h | h | h <;> rw [h] <;> decide
      obtain ⟨s', rs, hsrv, rfl⟩ := write_spec hw
      refine ⟨hq.append (ans.quiet_replies hsrv hsync hc _), fun hcopy => ?_, hb⟩
      rcases ans.copying_step hsrv hcopy with h | ⟨h, -⟩
      · exact hc h
      · rw [h] at hsync
        revert hsync
        decide
  | read stop =>
      refine ⟨?_, hc, hb⟩
      have happend := readUntil_append (fun x : Reply => stop x.msg) c₁.unread
      rw [← happend] at hq
      exact hq.right
  | cache statements => exact ⟨hq, hc, hb⟩

/-- Pumping the answer to a sync point off a queue with nothing terminal in it reads the whole queue:
it ends in the `ReadyForQuery` of the answer, or in the start of a COPY. -/
theorem Answers.pump_drains (ans : Answers srv copying) {m : Message} {c c' c'' : PgBackend σ}
    {replies delivered : List Reply} {accepts : Option Nat} {e : ExchangeEnd}
    (hq : Quiet c.unread) (hcopy : ¬ CopyWaits c.unread)
    (hw : writeForClient srv m c = some (c', replies))
    (hp : c'.pumpUntilReady accepts = (some e, delivered, c'')) :
    c''.unread = [] ∧ c''.server = c'.server ∧ c''.broken = c.broken ∧
      delivered = c.unread ++ replies ∧
      ∃ front x, replies = front ++ [x] ∧ Quiet front ∧ ¬ CopyWaits front ∧
        c''.trace.getLast? = some (.got x) ∧
        ((x.msg = .readyForQuery e.status ∧ opensCopy x.msg = false) ∨
          (opensCopy x.msg = true ∧ e.status = .inTransaction)) := by
  obtain ⟨s', rs, hsrv, hrep, rfl⟩ := writeForClient_spec hw
  obtain ⟨front, x, hunread, hdel, hfront, hx, -, hc''⟩ := pumpUntilReady_some hp
  have hterm : isTerminal x.msg = true := by
    rcases hx with hx | hx
    · simp [isTerminal, tag_of_transactionStatus hx]
    · simp [isTerminal, hx.1]
  have hnone : x ∉ c.unread := by
    intro hmem
    rcases hx with hx | hx
    · exact hq x hmem (tag_of_transactionStatus hx)
    · exact hcopy ⟨x, hmem, hx.1⟩
  have hsplit : c.unread ++ rs.map (⟨.client, ·⟩) = front ++ x :: c''.unread := by
    rw [← hrep]
    exact hunread
  obtain ⟨hrest, f, rfl, hrs⟩ := ans.split_terminal hsrv hnone hterm hsplit
  refine ⟨hrest, by rw [hc''], by rw [hc''], ?_, f, x, by rw [hrep, hrs], ?_, ?_, ?_, ?_⟩
  · rw [hdel, hrep, hrs, List.append_assoc]
  · -- A `ReadyForQuery` in front would have ended the pump.
    intro y hy hz
    have hmem : y.msg ∈ rs := by
      have hy' : y ∈ rs.map (Reply.mk .client) := by rw [hrs]; simp [hy]
      obtain ⟨z, hz', rfl⟩ := List.mem_map.mp hy'
      exact hz'
    obtain ⟨status, hstatus⟩ := ans.ready_status hsrv _ hmem hz
    have hno := (hfront y (List.mem_append_right _ hy)).1
    rw [hstatus, Message.transactionStatus_readyForQuery] at hno
    cases hno
  · rintro ⟨y, hy, hcopy'⟩
    rw [(hfront y (List.mem_append_right _ hy)).2] at hcopy'
    cases hcopy'
  · have htrace : c''.trace = (c.trace ++ [.wrote .client c.server m] ++
        (c.unread ++ f).map .got) ++ [.got x] := by
      rw [hc'', hdel]
      simp
    rw [htrace, List.getLast?_concat]
  · rcases hx with hx | hx
    · have hmsg := Message.eq_readyForQuery_of_transactionStatus hx
      refine .inl ⟨hmsg, ?_⟩
      rw [hmsg]
      rfl
    · exact .inr hx

/-- What carrying the client's parameters over does to a connection with an empty queue: nothing, or
one batch answered up to its `ReadyForQuery`. -/
theorem syncParams_ok {p : ClientParams} {c c' : PgBackend σ} {sync : PgBackend.ParamSync}
    (h : c.syncParams srv p = (.ok sync, c')) :
    (c' = c ∧ sync = .unchanged ∧ p.delta c.appliedParams = []) ∨
      ∃ s' rs read rest applied,
        srv.write c.server (.query (PgBackend.batchSql (p.delta c.appliedParams))) = some (s', rs) ∧
        p.delta c.appliedParams ≠ [] ∧
        readUntil (fun x : Reply => if x.msg.tag = byte 'Z' then some () else none)
          (c.unread ++ rs.map (⟨.pooler, ·⟩)) = (some (), read, rest) ∧
        c' = { c with
          server := s', unread := rest, appliedParams := applied
          trace := c.trace ++ [.wrote .pooler c.server
            (.query (PgBackend.batchSql (p.delta c.appliedParams)))] ++ read.map .got } ∧
        ((∃ d, sync = .refused d) ∧ applied = c.appliedParams ∧ PgBackend.batchFailure read ≠ none ∨
          sync = .applied ∧ applied = p.desired ∧ PgBackend.batchFailure read = none) := by
  unfold PgBackend.syncParams at h
  simp only at h
  split at h
  case isTrue hempty =>
    cases h
    exact .inl ⟨rfl, rfl, by simpa using hempty⟩
  case isFalse hne =>
    split at h
    case h_1 => cases h
    case h_2 c₁ hw =>
      obtain ⟨s', rs, hsrv, rfl⟩ := write_spec hw
      split at h
      case isTrue => cases h
      case isFalse =>
        split at h
        case h_1 => cases h
        case h_2 read c₂ hread =>
          simp only [PgBackend.read, Prod.mk.injEq] at hread
          obtain ⟨hstop, hread, rfl⟩ := hread
          have hne : p.delta c.appliedParams ≠ [] := by simpa using hne
          split at h
          case h_1 detail hfail =>
            cases h
            refine .inr ⟨s', rs, read, _, _, hsrv, hne, Prod.ext hstop (Prod.ext hread rfl), ?_,
              .inl ⟨⟨_, rfl⟩, rfl, by rw [hfail]; simp⟩⟩
            rw [hread]
          case h_2 hfail =>
            cases h
            refine .inr ⟨s', rs, read, _, _, hsrv, hne, Prod.ext hstop (Prod.ext hread rfl), ?_,
              .inr ⟨rfl, rfl, hfail⟩⟩
            rw [hread]
            rfl

/-- Reading up to a `ReadyForQuery` over a quiet queue reads everything, and the `ReadyForQuery` is the
last reply to the last message. -/
theorem Answers.read_ready (ans : Answers srv copying) {β : Type} {stop : Message → Option β} {b : β}
    (hstop : ∀ m, stop m = some b → m.tag = byte 'Z') {s s' : σ} {m : Message} {rs : List Message}
    (hw : srv.write s m = some (s', rs)) {o : Origin} {q read rest : List Reply} (hq : Quiet q)
    (h : readUntil (fun x : Reply => stop x.msg) (q ++ rs.map (⟨o, ·⟩)) = (some b, read, rest)) :
    rest = [] ∧ ∃ f status, rs = f ++ [.readyForQuery status] ∧
      read = q ++ f.map (⟨o, ·⟩) ++ [⟨o, .readyForQuery status⟩] ∧
      ∀ x ∈ q ++ f.map (⟨o, ·⟩), stop x.msg = none := by
  have happend := readUntil_append (fun x : Reply => stop x.msg) (q ++ rs.map (⟨o, ·⟩))
  have hfirst : (readUntil (fun x : Reply => stop x.msg) (q ++ rs.map (⟨o, ·⟩))).1 = some b := by
    rw [h]
  have hsome := readUntil_some hfirst
  simp only [h] at happend hsome
  obtain ⟨front, x, rfl, hx, hfront⟩ := hsome
  have hz : x.msg.tag = byte 'Z' := hstop _ hx
  have hsplit : q ++ rs.map (⟨o, ·⟩) = front ++ x :: rest := by rw [← happend]; simp
  obtain ⟨hrest, f, rfl, hrs⟩ := ans.split_terminal hw (fun hmem => hq x hmem hz)
    (by simp [isTerminal, hz]) hsplit
  have hmsgs : rs = f.map Reply.msg ++ [x.msg] := by
    have hmap := congrArg (List.map Reply.msg) hrs
    simpa using hmap
  obtain ⟨status, hstatus⟩ := ans.ready_status hw x.msg (by rw [hmsgs]; simp) hz
  have hf : (f.map Reply.msg).map (⟨o, ·⟩) = f ∧ x = ⟨o, .readyForQuery status⟩ := by
    rw [hmsgs, List.map_append, List.map_singleton] at hrs
    obtain ⟨hf, hx'⟩ := List.append_inj' hrs rfl
    refine ⟨hf, ?_⟩
    rw [List.cons.injEq] at hx'
    rw [← hx'.1, hstatus]
  refine ⟨hrest, f.map Reply.msg, status, by rw [hmsgs, hstatus], ?_, ?_⟩
  · rw [hf.1, ← hf.2]
  · rw [hf.1]
    exact hfront

theorem simpleQuery_cases {sql : Text} {c c' : PgBackend σ} (h : c.simpleQuery srv sql = c')
    (hb : c'.broken = false) :
    c.broken = false ∧ ∃ s' rs read rest, srv.write c.server (.query sql) = some (s', rs) ∧
      readUntil (fun x : Reply => PgBackend.resetStop x.msg) (c.unread ++ rs.map (⟨.pooler, ·⟩)) =
        (some true, read, rest) ∧
      c' = { c with
        server := s', unread := rest
        trace := c.trace ++ [.wrote .pooler c.server (.query sql)] ++ read.map .got } := by
  unfold PgBackend.simpleQuery at h
  split at h
  case isTrue hbroken =>
    rw [← h, hbroken] at hb
    cases hb
  case isFalse hbroken =>
    split at h
    case h_1 =>
      rw [← h] at hb
      cases hb
    case h_2 c₁ hw =>
      obtain ⟨s', rs, hsrv, rfl⟩ := write_spec hw
      split at h
      case isTrue =>
        rw [← h] at hb
        cases hb
      case isFalse =>
        split at h
        case h_1 read c₂ hread =>
          simp only [PgBackend.read, Prod.mk.injEq] at hread
          obtain ⟨hstop, hread, rfl⟩ := hread
          refine ⟨by simpa using hbroken, s', rs, read, _, hsrv, Prod.ext hstop (Prod.ext hread rfl), ?_⟩
          rw [← h, hread]
        case h_2 =>
          rw [← h] at hb
          cases hb

variable (srv) in
/-- A simple query is written or not; what is read does not matter to the server. -/
theorem simpleQuery_server (sql : Text) (c : PgBackend σ) :
    (c.simpleQuery srv sql).statements = c.statements ∧
      ((c.simpleQuery srv sql).server = c.server ∨
        ∃ rs, srv.write c.server (.query sql) = some ((c.simpleQuery srv sql).server, rs)) := by
  unfold PgBackend.simpleQuery
  split
  case isTrue => exact ⟨rfl, .inl rfl⟩
  case isFalse =>
    split
    case h_1 => exact ⟨rfl, .inl rfl⟩
    case h_2 c₁ hw =>
      obtain ⟨s', rs, hsrv, rfl⟩ := write_spec hw
      split
      case isTrue => exact ⟨rfl, .inr ⟨rs, hsrv⟩⟩
      case isFalse =>
        split
        case h_1 read c₂ hread =>
          cases congrArg (fun x => x.2.2) hread
          exact ⟨rfl, .inr ⟨rs, hsrv⟩⟩
        case h_2 ending read c₂ hread =>
          cases congrArg (fun x => x.2.2) hread
          exact ⟨rfl, .inr ⟨rs, hsrv⟩⟩

/-- A simple query that leaves the connection unbroken was answered without an error up to its
`ReadyForQuery`, and nothing is left to read. -/
theorem Answers.simpleQuery_fit (ans : Answers srv copying) {sql : Text} {c c' : PgBackend σ}
    (hq : Quiet c.unread) (h : c.simpleQuery srv sql = c') (hb : c'.broken = false) :
    ∃ s' rs status, srv.write c.server (.query sql) = some (s', rs) ∧
      (∀ x ∈ rs, x.tag ≠ byte 'E') ∧ Message.readyForQuery status ∈ rs ∧ c'.server = s' ∧
      c'.unread = [] ∧ c'.supportsDiscardAll = c.supportsDiscardAll ∧
      c'.trace.getLast? = some (.got ⟨.pooler, .readyForQuery status⟩) := by
  obtain ⟨-, s', rs, read, rest, hsrv, hread, rfl⟩ := simpleQuery_cases h hb
  have hstop : ∀ m, PgBackend.resetStop m = some true → m.tag = byte 'Z' := by
    intro m hm
    unfold PgBackend.resetStop at hm
    split at hm
    · assumption
    · split at hm <;> cases hm
  obtain ⟨rfl, f, status, rfl, rfl, hfront⟩ := ans.read_ready hstop hsrv hq hread
  refine ⟨s', _, status, hsrv, ?_, by simp, rfl, rfl, rfl, ?_⟩
  · -- An error in front of the `ReadyForQuery` would have stopped the read.
    intro x hx hE
    rcases List.mem_append.mp hx with hx | hx
    · have hnone := hfront ⟨.pooler, x⟩ (by simp [hx])
      simp only [PgBackend.resetStop, hE] at hnone
      revert hnone
      decide
    · rw [List.mem_singleton] at hx
      rw [hx] at hE
      revert hE
      cases status <;> decide
  · simp only [List.map_append, List.map_singleton, ← List.append_assoc]
    rw [List.getLast?_concat]

/-- Nothing is left to read on a connection, and its server is not taking COPY data. -/
structure Drained (copying : σ → Prop) (c : PgBackend σ) : Prop where
  unread : c.unread = []
  still : ¬ copying c.server

theorem Drained.quiet {c : PgBackend σ} (h : Drained copying c) : Quiet c.unread := by
  rw [h.unread]
  exact Quiet.nil

/-- Carrying the client's parameters over: nothing is done, or one batch is answered up to the
`ReadyForQuery` that ends the trace, and the queue is empty. -/
theorem Quiet.syncParams (ans : Answers srv copying) {p : ClientParams} {c c' : PgBackend σ}
    {sync : PgBackend.ParamSync} (hq : Quiet c.unread) (h : c.syncParams srv p = (.ok sync, c')) :
    c' = c ∨ ∃ s' rs status applied trace,
      srv.write c.server (.query (PgBackend.batchSql (p.delta c.appliedParams))) = some (s', rs) ∧
      Message.readyForQuery status ∈ rs ∧ ¬ copying s' ∧
      c' = { c with server := s', unread := [], appliedParams := applied, trace } ∧
      trace.getLast? = some (.got ⟨.pooler, .readyForQuery status⟩) := by
  obtain ⟨rfl, -, -⟩ | ⟨s', rs, read, rest, applied, hsrv, -, hread, rfl, -⟩ := syncParams_ok h
  · exact .inl rfl
  · have hstop : ∀ m : Message, (if m.tag = byte 'Z' then some () else none) = some () →
        m.tag = byte 'Z' := by
      intro m hm
      by_contra h
      simp [h] at hm
    obtain ⟨rfl, f, status, rfl, rfl, -⟩ := ans.read_ready hstop hsrv hq hread
    refine .inr ⟨s', _, status, applied, _, hsrv, by simp, ?_, rfl, ?_⟩
    · exact ans.ready_copying hsrv (.readyForQuery status) (by simp) rfl
    · simp only [List.map_append, List.map_singleton, ← List.append_assoc]
      rw [List.getLast?_concat]

/-- Carrying the client's parameters over leaves a drained connection drained. -/
theorem Drained.syncParams (ans : Answers srv copying) {p : ClientParams} {c c' : PgBackend σ}
    {sync : PgBackend.ParamSync} (hc : Drained copying c) (h : c.syncParams srv p = (.ok sync, c')) :
    Drained copying c' ∧ c'.broken = c.broken ∧ (c' = c ∨ ∃ s' rs status,
      srv.write c.server (.query (PgBackend.batchSql (p.delta c.appliedParams))) = some (s', rs) ∧
      Message.readyForQuery status ∈ rs ∧ c'.server = s' ∧
      c'.trace.getLast? = some (.got ⟨.pooler, .readyForQuery status⟩)) := by
  obtain rfl | ⟨s', rs, status, applied, trace, hsrv, hz, hstill, rfl, htrace⟩ :=
    hc.quiet.syncParams ans h
  · exact ⟨hc, rfl, .inl rfl⟩
  · exact ⟨⟨rfl, hstill⟩, rfl, .inr ⟨s', rs, status, hsrv, hz, rfl, htrace⟩⟩

/-- What drained pools hand out is drained, and stays so while the client's parameters are carried
over. -/
theorem Offered.drained (ans : Answers srv copying) {g : Group} {sh : Shelves σ} {c : PgBackend σ}
    (hsh : ∀ p c, c ∈ sh p → Drained copying c) (h : Offered srv g sh c) : Drained copying c := by
  cases h with
  | shelved hmem => exact ⟨(hsh _ _ hmem).unread, (hsh _ _ hmem).still⟩
  | opened n => exact ⟨rfl, ans.start n⟩

/-- Off empty shelves, for a client with no parameters of its own, comes a connection just opened. -/
theorem Ready.opened {g : Group} {r : Relay σ} {t : Turn} {msg : Message} {s : Session σ}
    {co : Checkout σ} (hheld : r.session.held = none) (hsh : ∀ p, r.shelves p = [])
    (hparams : r.session.params.delta .empty = []) (h : Ready srv g r t msg s co) :
    ∃ k, co.conn = { server := srv.start k, supportsDiscardAll := g.supportsDiscardAll } := by
  cases h with
  | held hco =>
      rw [hheld] at hco
      cases hco
  | borrowed _ _ hoffer hsync =>
      cases hoffer with
      | shelved hmem =>
          rw [hsh] at hmem
          cases hmem
      | opened k =>
          have hnone : ((r.session.receive msg).arrive msg).params.delta .empty = [] := by
            rw [Session.delta_arrive]
            exact hparams
          obtain ⟨rfl, -, -⟩ | ⟨s', rs, read, rest, applied, -, hne, -⟩ := syncParams_ok hsync
          · exact ⟨k, rfl⟩
          · exact absurd hnone hne

/-- Without a reason to start over, the relay does not. -/
theorem NoRestart.absurd {sha256 : Bytes → Bytes} {g : Group} {r : Relay σ} {t : Turn}
    {msg out : Message} {s : Session σ} {co : Checkout σ} {st : ClientStatements}
    {c c' c'' : PgBackend σ} {replies : List Reply} (h : NoRestart srv g r t)
    (hsends : Sends sha256 srv g r t msg s co out st c c' replies)
    (hreply : expectsReply msg = true)
    (hpump : c'.pumpUntilReady t.clientAccepts = (none, [], c''))
    (hroute : s.currentRoute.isReplica = true) : False := by
  have hsync : isSyncPoint msg.tag = true := by rw [← expectsReply_eq, hreply]
  obtain ⟨rfl, rfl, rfl⟩ := outgoing_syncPoint hsync hsends.outgoing
  obtain ⟨s', rs, hsrv, hrep, rfl⟩ := writeForClient_spec hsends.written
  obtain ⟨hacc, hrs⟩ := h _ s co hsends.forwards hsends.ready hroute hreply
  rcases pumpUntilReady_none hpump with hdead | hempty
  · exact hacc hdead
  · have hnil : replies = [] := (List.append_eq_nil_iff.mp hempty).2
    rw [hrep, List.map_eq_nil_iff] at hnil
    exact hrs s' rs hsrv hnil

end Queue

end Havuz
