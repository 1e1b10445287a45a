import Havuz.Relay.Cache

/-!
# The client's replies

`replay_parse` and `close_statement` read the reply stream in the middle of a pipeline, up to the tag
they wait for. Whatever of the client's is still queued in front of it is read with it and lost. So the
client gets exactly the replies to its own messages when, and only when, the relay sends nothing of its
own while a reply of the client's is unread.
-/

namespace Havuz

open Lib Sql

variable {σ : Type} {sha256 : Bytes → Bytes} {srv : Server σ} {g : Group} {copying : σ → Prop}

/-! ## What is owed to the client -/

/-- The replies to the client's messages in flight, in the order they were sent. -/
def Ledger.answers (l : Ledger σ) : List Reply := l.inFlight.flatMap Forward.replies

/-- How many of the queued replies answer the client. -/
def ownCount (q : List Reply) : Nat := q.countP fun x => x.origin = .client

@[simp] theorem ownCount_nil : ownCount [] = 0 := rfl

@[simp] theorem ownCount_append (q q' : List Reply) : ownCount (q ++ q') = ownCount q + ownCount q' :=
  List.countP_append

@[simp] theorem ownCount_client (rs : List Message) :
    ownCount (rs.map (Reply.mk .client)) = rs.length := by
  simp [ownCount, List.countP_map]

@[simp] theorem ownCount_pooler (rs : List Message) :
    ownCount (rs.map (Reply.mk .pooler)) = 0 := by
  simp [ownCount, List.countP_map]

/-- Reading takes at most from the front. -/
theorem ownCount_read {β : Type} (stop : Message → Option β) (c : PgBackend σ) :
    ownCount (c.read stop).2.2.unread ≤ ownCount c.unread := by
  have happend := readUntil_append (fun x : Reply => stop x.msg) c.unread
  calc ownCount (c.read stop).2.2.unread
      ≤ ownCount (readUntil (fun x : Reply => stop x.msg) c.unread).2.1 +
        ownCount (c.read stop).2.2.unread := Nat.le_add_left _ _
    _ = ownCount c.unread := by
      rw [← ownCount_append]
      exact congrArg ownCount happend

/-- A read takes at least the first reply, whatever the relay's own messages added behind it. -/
theorem ownCount_read_lt {β : Type} (stop : Message → Option β) {c : PgBackend σ} {x : Reply}
    {q : List Reply} {rs rs' : List Message} (hx : x.origin = .client)
    (hq : c.unread = x :: q ++ rs.map (Reply.mk .pooler) ++ rs'.map (Reply.mk .pooler)) :
    ownCount (c.read stop).2.2.unread < ownCount (x :: q) := by
  have hqueue : c.unread =
      x :: (q ++ rs.map (Reply.mk .pooler) ++ rs'.map (Reply.mk .pooler)) := hq
  have hmore : ownCount (q ++ rs.map (Reply.mk .pooler) ++ rs'.map (Reply.mk .pooler)) =
      ownCount q := by
    simp only [ownCount_append, ownCount_pooler, Nat.add_zero]
  have hrest : ownCount (c.read stop).2.2.unread ≤ ownCount q := by
    rw [← hmore]
    show ownCount (readUntil (fun x : Reply => stop x.msg) c.unread).2.2 ≤ _
    rw [hqueue, readUntil]
    cases stop x.msg with
    | some b => exact le_refl _
    | none =>
        exact ownCount_read stop { c with
          unread := q ++ rs.map (Reply.mk .pooler) ++ rs'.map (Reply.mk .pooler) }
  have hlen : ownCount (x :: q) = ownCount q + 1 := by
    rw [ownCount, ownCount, List.countP_cons, if_pos (by simpa using hx)]
  omega

/-- Nothing the relay does on its own account adds to them. -/
theorem Asides.ownCount_le {c c' : PgBackend σ} (h : Asides srv c c') :
    ownCount c'.unread ≤ ownCount c.unread := by
  refine h.invariant (I := fun c' => ownCount c'.unread ≤ ownCount c.unread) ?_ (le_refl _)
  intro c₁ c₂ hstep hle
  cases hstep with
  | write htag hw =>
      obtain ⟨s', rs, -, rfl⟩ := write_spec hw
      simp only [ownCount_append, ownCount_pooler]
      omega
  | read stop => exact (ownCount_read stop c₁).trans hle
  | cache => exact hle

/-! ## Messages of the relay's own -/

/-- Forwarding the message takes a message of the relay's own in front of it: the statement is not on
the backend, or its name is, or another one has to go. -/
def Injects (sha256 : Bytes → Bytes) (msg : Message) (st : ClientStatements) (b : BackendStatements) :
    Prop :=
  match rewritePrepared sha256 msg st b with
  | .ok (.parse name _, _) => b.has name = true ∨ (b.insert name).2.isSome = true
  | .ok (.replayThen _ _ _, _) => True
  | _ => False

/-- The condition: nothing is injected while a reply is unread. -/
def Clear (sha256 : Bytes → Bytes) (r : Relay σ) (t : Turn) : Prop :=
  ∀ msg co, Forwards r t msg → r.session.held = some co → co.conn.unread ≠ [] →
    ¬ Injects sha256 msg r.session.statements co.conn.statements

section Laws

variable (ans : Answers srv copying) (com : Completes srv copying) (live : Live srv)

/-- The queue between two messages of a client. -/
structure Calm (copying : σ → Prop) (c : PgBackend σ) : Prop where
  quiet : Quiet c.unread
  still : ¬ copying c.server

include live in
/-- A `Close` of the relay's own reads the queue, whatever comes of it. -/
theorem Live.closeStatement {name : Bytes} {c c' : PgBackend σ} {res : Except ProtoError Unit}
    (h : c.closeStatement srv name = (res, c')) :
    ∃ s₁ rs₁ s₂ rs₂, srv.write c.server (PgBackend.closeMessage name) = some (s₁, rs₁) ∧
      srv.write s₁ .flush = some (s₂, rs₂) ∧
      c' = (PgBackend.read PgBackend.closeStop { c with
        server := s₂
        unread := c.unread ++ rs₁.map (Reply.mk .pooler) ++ rs₂.map (Reply.mk .pooler)
        trace := c.trace ++ [.wrote .pooler c.server (PgBackend.closeMessage name)] ++
          [.wrote .pooler s₁ .flush] }).2.2 := by
  unfold PgBackend.closeStatement at h
  simp only at h
  split at h
  case h_1 hclose => exact absurd (write_none hclose) (live.write _ _)
  case h_2 c₁ hclose =>
    obtain ⟨s₁, rs₁, hw₁, rfl⟩ := write_spec hclose
    split at h
    case h_1 hflush => exact absurd (write_none hflush) (live.write _ _)
    case h_2 c₂ hflush =>
      obtain ⟨s₂, rs₂, hw₂, rfl⟩ := write_spec hflush
      refine ⟨s₁, rs₁, s₂, rs₂, hw₁, hw₂, ?_⟩
      rw [live.flush] at h
      simp only [Bool.not_true, Bool.false_eq_true, if_false] at h
      split at h
      case h_1 read c₃ hread =>
        cases h
        rw [hread]
      case h_2 read c₃ hread =>
        cases h
        rw [hread]

/-- A queue whose first stop is its last reply is read to its end. -/
theorem read_all {β : Type} {stop : Message → Option β} {o : Origin} {rs : List Message}
    (h : ∀ front x back, rs = front ++ x :: back → stop x ≠ none → back = []) :
    (readUntil (fun x : Reply => stop x.msg) (rs.map (Reply.mk o))).2.2 = [] := by
  have happend := readUntil_append (fun x : Reply => stop x.msg) (rs.map (Reply.mk o))
  cases hres : (readUntil (fun x : Reply => stop x.msg) (rs.map (Reply.mk o))).1 with
  | none => exact readUntil_none hres
  | some b =>
      obtain ⟨front, a, hread, hstop, -⟩ := readUntil_some hres
      rw [hread, List.append_assoc, List.singleton_append] at happend
      obtain ⟨f, rest, rfl, -, hrest⟩ := List.map_eq_append_iff.mp happend.symm
      obtain ⟨x, back, rfl, rfl, hback⟩ := List.map_eq_cons_iff.mp hrest
      have hnil : back = [] := h f x back rfl (by rw [hstop]; simp)
      rw [← hback, hnil, List.map_nil]

include ans com live in
/-- On an empty queue a `Close` of the relay's own reads exactly its own answer. -/
theorem Drained.closeStatement {name : Bytes} {c c' : PgBackend σ} {res : Except ProtoError Unit}
    (h : Drained copying c) (hclose : c.closeStatement srv name = (res, c')) : Drained copying c' := by
  obtain ⟨s₁, rs₁, s₂, rs₂, hw₁, hw₂, hc'⟩ := live.closeStatement hclose
  have hflush : rs₂ = [] := ans.flush_silent hw₂ rfl
  have hasides : Asides srv c (c.closeStatement srv name).2 := closeStatement_asides name c
  rw [hclose] at hasides
  refine ⟨?_, (hasides.quiet ans h.quiet h.still).2.1⟩
  rw [hc', hflush, h.unread]
  simp only [PgBackend.read, List.nil_append, List.map_nil, List.append_nil]
  refine read_all fun front x back hrs hstop => com.close_last hw₁ h.still rfl front x back hrs ?_
  by_contra hne
  exact hstop (by simp [PgBackend.closeStop, hne])

include live in
/-- On a queue that starts with a reply of the client's, it reads that one too. -/
theorem Live.closeStatement_loses {name : Bytes} {c c' : PgBackend σ} {x : Reply} {q : List Reply}
    {res : Except ProtoError Unit} (hq : c.unread = x :: q) (hx : x.origin = .client)
    (hclose : c.closeStatement srv name = (res, c')) : ownCount c'.unread < ownCount c.unread := by
  obtain ⟨s₁, rs₁, s₂, rs₂, -, -, rfl⟩ := live.closeStatement hclose
  rw [hq]
  exact ownCount_read_lt _ hx rfl

include ans com live in
theorem Drained.prepareParse {name : Bytes} {c c' : PgBackend σ} {res : Except ProtoError Unit}
    (h : Drained copying c) (hroom : prepareParse srv name c = (res, c')) : Drained copying c' := by
  have hfree : ∀ {res c₁}, freeName srv name c = (res, c₁) → Drained copying c₁ := by
    intro res c₁ hfree
    unfold freeName at hfree
    split at hfree
    case isFalse =>
      cases hfree
      exact h
    case isTrue =>
      split at hfree
      case h_1 c₂ hclose =>
        cases hfree
        have hc₂ := h.closeStatement ans com live hclose
        exact ⟨hc₂.unread, hc₂.still⟩
      case h_2 e c₂ hclose =>
        cases hfree
        exact h.closeStatement ans com live hclose
  unfold Havuz.prepareParse at hroom
  split at hroom
  case h_1 e c₁ hname =>
    cases hroom
    exact hfree hname
  case h_2 c₁ hname =>
    have hc₁ := hfree hname
    split at hroom
    case h_2 statements _ =>
      cases hroom
      exact ⟨hc₁.unread, hc₁.still⟩
    case h_1 statements evicted _ =>
      cases hclose : PgBackend.closeStatement srv evicted { c₁ with statements } with
      | mk res' c₂ =>
          rw [hclose] at hroom
          cases hroom
          have hc₁' : Drained copying { c₁ with statements } := ⟨hc₁.unread, hc₁.still⟩
          exact hc₁'.closeStatement ans com live hclose

include live in
theorem Live.prepareParse_loses {name : Bytes} {c c' : PgBackend σ} {x : Reply} {q : List Reply}
    (hq : c.unread = x :: q) (hx : x.origin = .client)
    (hinjects : c.statements.has name = true ∨ (c.statements.insert name).2.isSome = true)
    (hroom : prepareParse srv name c = (.ok (), c')) : ownCount c'.unread < ownCount c.unread := by
  unfold prepareParse at hroom
  split at hroom
  case h_1 => cases hroom
  case h_2 c₁ hfree =>
    have hafter : ownCount c'.unread ≤ ownCount c₁.unread := by
      split at hroom
      case h_2 =>
        cases hroom
        exact le_refl _
      case h_1 statements evicted _ =>
        have hasides : Asides srv { c₁ with statements } _ := closeStatement_asides evicted _
        cases hroom
        exact hasides.ownCount_le
    unfold freeName at hfree
    split at hfree
    case isTrue =>
      split at hfree
      case h_2 => cases hfree
      case h_1 c₂ hclose =>
        cases hfree
        have hlost := live.closeStatement_loses hq hx hclose
        exact hafter.trans_lt hlost
    case isFalse hhas =>
      -- The name is free; another one has to go.
      cases hfree
      obtain ⟨evicted, hevicted⟩ := Option.isSome_iff_exists.mp (hinjects.resolve_left hhas)
      split at hroom
      case h_2 statements hinsert =>
        rw [hinsert] at hevicted
        cases hevicted
      case h_1 statements evicted _ =>
        cases hclose : PgBackend.closeStatement srv evicted { c with statements } with
        | mk res' c₂ =>
            rw [hclose] at hroom
            cases hroom
            exact live.closeStatement_loses (c := { c with statements }) hq hx hclose

include ans com live in
theorem Drained.replayParse {parse name : Bytes} {c c' : PgBackend σ} (h : Drained copying c)
    (hreplay : c.replayParse srv parse name = (.ok (), c')) : Drained copying c' := by
  obtain ⟨c₁, c₂, hparse, hflush, -, hend⟩ := replayParse_ok hreplay
  obtain ⟨s₁, rs₁, hw₁, rfl⟩ := write_spec hparse
  obtain ⟨s₂, rs₂, hw₂, rfl⟩ := write_spec hflush
  have hsilent : rs₂ = [] := ans.flush_silent hw₂ rfl
  generalize hread : (PgBackend.read PgBackend.parseStop _).2.2 = c₃ at hend
  have hunread : c₃.unread = [] := by
    rw [← hread, hsilent, h.unread]
    simp only [PgBackend.read, List.nil_append, List.map_nil, List.append_nil]
    refine read_all fun front x back hrs hstop => com.parse_last hw₁ h.still rfl front x back hrs ?_
    by_contra hne
    rw [not_or] at hne
    exact hstop (by simp [PgBackend.parseStop, hne])
  have hstill : ¬ copying c₃.server := by
    have hcopying : ∀ {s s' m rs}, srv.write s m = some (s', rs) → m.tag ≠ byte 'Q' →
        ¬ copying s → ¬ copying s' := by
      intro s s' m rs hw hQ hs hs'
      rcases ans.copying_step hw hs' with h | ⟨h, -⟩
      · exact hs h
      · exact hQ h
    rw [← hread]
    exact hcopying hw₂ (show byte 'H' ≠ byte 'Q' by decide)
      (hcopying hw₁ (show byte 'P' ≠ byte 'Q' by decide) h.still)
  split at hend
  case h_2 statements _ =>
    subst hend
    exact ⟨hunread, hstill⟩
  case h_1 statements evicted _ =>
    have hc₃ : Drained copying { c₃ with statements } := ⟨hunread, hstill⟩
    exact hc₃.closeStatement ans com live hend

theorem replayParse_loses {parse name : Bytes} {c c' : PgBackend σ} {x : Reply} {q : List Reply}
    (hq : c.unread = x :: q) (hx : x.origin = .client)
    (hreplay : c.replayParse srv parse name = (.ok (), c')) :
    ownCount c'.unread < ownCount c.unread := by
  obtain ⟨c₁, c₂, hparse, hflush, -, hend⟩ := replayParse_ok hreplay
  obtain ⟨s₁, rs₁, -, rfl⟩ := write_spec hparse
  obtain ⟨s₂, rs₂, -, rfl⟩ := write_spec hflush
  generalize hread : (PgBackend.read PgBackend.parseStop _).2.2 = c₃ at hend
  have hlost : ownCount c₃.unread < ownCount c.unread := by
    rw [← hread, hq]
    exact ownCount_read_lt _ hx rfl
  split at hend
  case h_2 statements _ =>
    subst hend
    exact hlost
  case h_1 statements evicted _ =>
    have hasides : Asides srv { c₃ with statements }
        (PgBackend.closeStatement srv evicted { c₃ with statements }).2 := closeStatement_asides evicted _
    rw [hend] at hasides
    exact lt_of_le_of_lt hasides.ownCount_le hlost

/-! ## One message of the pipeline -/

/-- The queue is what is owed to the client. -/
structure Even (copying : σ → Prop) (c : PgBackend σ) (l : Ledger σ) : Prop where
  calm : Calm copying c
  delivered : l.delivered = []
  unread : c.unread = l.answers
  own : ∀ x ∈ l.answers, x.origin = .client

/-- The queue holds less than what is owed to the client. -/
structure Short (copying : σ → Prop) (c : PgBackend σ) (l : Ledger σ) : Prop where
  calm : Calm copying c
  delivered : l.delivered = []
  own : ∀ x ∈ l.answers, x.origin = .client
  lost : ownCount c.unread < l.answers.length

theorem Ledger.answers_forward (l : Ledger σ) (msg out : Message) (server : σ) (replies : List Reply) :
    (l.forward msg out server replies).answers = l.answers ++ replies := by
  simp [answers, forward]

theorem Ledger.own_forward {l : Ledger σ} {msg out : Message} {server : σ} {replies : List Reply}
    {rs : List Message} (h : ∀ x ∈ l.answers, x.origin = .client)
    (hreplies : replies = rs.map (Reply.mk .client)) :
    ∀ x ∈ (l.forward msg out server replies).answers, x.origin = .client := by
  intro x hx
  rw [answers_forward] at hx
  rcases List.mem_append.mp hx with hx | hx
  · exact h x hx
  · rw [hreplies] at hx
    obtain ⟨y, -, rfl⟩ := List.mem_map.mp hx
    rfl

theorem ownCount_of_own {q : List Reply} (h : ∀ x ∈ q, x.origin = .client) :
    ownCount q = q.length := by
  rw [ownCount, List.countP_eq_length]
  exact fun x hx => decide_eq_true (h x hx)

/-- Where the relay sends nothing of its own, or the queue is empty, it leaves the queue alone. -/
theorem Sends.unread_before {r : Relay σ} {t : Turn} {msg out : Message} {s : Session σ}
    {co : Checkout σ} {st : ClientStatements} {c c' : PgBackend σ} {replies : List Reply}
    (ans : Answers srv copying) (com : Completes srv copying) (live : Live srv)
    (h : Calm copying co.conn)
    (hclear : co.conn.unread ≠ [] → ¬ Injects sha256 msg s.statements co.conn.statements)
    (hsends : Sends sha256 srv g r t msg s co out st c c' replies) : c.unread = co.conn.unread := by
  cases outgoing_cases hsends.outgoing with
  | passed => rfl
  | replaced => rfl
  | closed => rfl
  | @parsed name m _ _ hr hroom =>
      by_cases hempty : co.conn.unread = []
      · rw [hempty]
        exact (Drained.prepareParse ans com live ⟨hempty, h.still⟩ hroom).unread
      · have hnot := hclear hempty
        simp only [Injects, hr, not_or, Bool.not_eq_true] at hnot
        obtain ⟨hfree, hroomy⟩ := hnot
        simp only [prepareParse, freeName, hfree, Bool.false_eq_true, if_false] at hroom
        split at hroom
        case h_1 statements evicted hinsert =>
          rw [hinsert] at hroomy
          cases hroomy
        case h_2 statements hinsert =>
          cases hroom
          rfl
  | replayed hr hreplay =>
      by_cases hempty : co.conn.unread = []
      · rw [hempty]
        exact (Drained.replayParse ans com live ⟨hempty, h.still⟩ hreplay).unread
      · have hnot := hclear hempty
        simp [Injects, hr] at hnot

/-- Where it does send something of its own and the queue starts with a reply of the client's, that
reply is lost. -/
theorem Sends.loses {r : Relay σ} {t : Turn} {msg out : Message} {s : Session σ}
    {co : Checkout σ} {st : ClientStatements} {c c' : PgBackend σ} {replies : List Reply} {x : Reply}
    {q : List Reply} (live : Live srv) (hq : co.conn.unread = x :: q) (hx : x.origin = .client)
    (hinjects : Injects sha256 msg s.statements co.conn.statements)
    (hsends : Sends sha256 srv g r t msg s co out st c c' replies) :
    ownCount c.unread < ownCount co.conn.unread := by
  cases outgoing_cases hsends.outgoing with
  | passed hr => simp [Injects, hr] at hinjects
  | replaced hr => simp [Injects, hr] at hinjects
  | closed hr => simp [Injects, hr] at hinjects
  | parsed hr hroom =>
      simp only [Injects, hr] at hinjects
      exact live.prepareParse_loses hq hx hinjects hroom
  | replayed hr hreplay => exact replayParse_loses hq hx hreplay

theorem Calm.asides {c c' : PgBackend σ} (ans : Answers srv copying) (h : Calm copying c)
    (hasides : Asides srv c c') : Calm copying c' :=
  ⟨(hasides.quiet ans h.quiet h.still).1, (hasides.quiet ans h.quiet h.still).2.1⟩

/-- A message of the extended protocol leaves no `ReadyForQuery` in the queue. -/
theorem Sends.calm {r : Relay σ} {t : Turn} {msg out : Message} {s : Session σ}
    {co : Checkout σ} {st : ClientStatements} {c c' : PgBackend σ} {replies : List Reply}
    (ans : Answers srv copying) (h : Calm copying co.conn) (hext : isExtended msg.tag = true)
    (hsends : Sends sha256 srv g r t msg s co out st c c' replies) : Calm copying c' := by
  have hc := h.asides ans (outgoing_asides hsends.outgoing)
  obtain ⟨s', rs, hsrv, rfl, rfl⟩ := writeForClient_spec hsends.written
  have htag : out.tag = msg.tag := outgoing_tag hsends.outgoing
  have hnot : isSyncPoint out.tag = false ∧ out.tag ≠ byte 'Q' := by
    rw [htag]
    simp only [isExtended, Bool.or_eq_true, decide_eq_true_eq] at hext
    rcases hext with (((h | h) | h) | h) | h <;> rw [h] <;> decide
  refine ⟨hc.quiet.append (ans.quiet_replies hsrv hnot.1 hc.still _), fun hcopying => ?_⟩
  rcases ans.copying_step hsrv hcopying with hbefore | ⟨hQ, -⟩
  · exact hc.still hbefore
  · exact hnot.2 hQ

/-! ## Turns -/

variable {history : List (List (Forward σ) × List Reply)}

/-- Nothing is lost so far in the exchange that comes after `history`. -/
structure Level (copying : σ → Prop) (history : List (List (Forward σ) × List Reply))
    (s : Session σ) : Prop where
  books : s.log.history = history
  even : ∀ co, s.held = some co → Even copying co.conn s.log

/-- Something is. -/
structure Robbed (copying : σ → Prop) (history : List (List (Forward σ) × List Reply))
    (s : Session σ) : Prop where
  books : s.log.history = history
  short : ∃ co, s.held = some co ∧ Short copying co.conn s.log

section Ready

variable {r : Relay σ} {t : Turn} {msg : Message} {s : Session σ} {co : Checkout σ}

/-- A session about to rewrite a message. -/
theorem Level.ready (ans : Answers srv copying) (hsh : ∀ p c, c ∈ r.shelves p → Drained copying c)
    (h : Level copying history r.session) (hr : Ready srv g r t msg s co) :
    s.log.history = history ∧ Even copying co.conn s.log := by
  cases hr with
  | held hco =>
      have heven := h.even co hco
      exact ⟨h.books, heven.calm, heven.delivered, heven.unread, heven.own⟩
  | borrowed hnone hs hoffer hsync =>
      obtain ⟨-, -, -, -, results, hlog⟩ := hs.spec
      obtain ⟨hdrained, -⟩ := (hoffer.drained ans hsh).syncParams ans hsync
      refine ⟨?_, ⟨hdrained.quiet, hdrained.still⟩, rfl, hdrained.unread, fun x hx => (by cases hx)⟩
      simp only [Session.hold, Session.checkOut, Ledger.checkout, hlog]
      exact h.books

theorem Robbed.ready (h : Robbed copying history r.session) (hr : Ready srv g r t msg s co) :
    s.log.history = history ∧ Short copying co.conn s.log := by
  obtain ⟨co', hco', hshort⟩ := h.short
  cases hr with
  | held hco =>
      cases hco'.symm.trans hco
      exact ⟨h.books, hshort.calm, hshort.delivered, hshort.own, hshort.lost⟩
  | borrowed hnone =>
      rw [hnone] at hco'
      cases hco'

/-- The condition of a turn, put to the message that is forwarded in it. -/
theorem Clear.of_ready (hf : Forwards r t msg) (hr : Ready srv g r t msg s co)
    (h : co.conn.unread ≠ [] → ¬ Injects sha256 msg s.statements co.conn.statements) :
    Clear sha256 r t := by
  intro msg' co' hf' hco' hunread
  cases hf.event.symm.trans hf'.event
  rw [← hr.statements_eq]
  obtain ⟨results, ⟨hco, -⟩ | ⟨hnone, -⟩⟩ := hr.log_eq
  · cases hco.symm.trans hco'
    exact h hunread
  · rw [hnone] at hco'
    cases hco'

end Ready

variable {r : Relay σ} {t : Turn} {m : Message}

theorem isExtended_expectsReply {msg : Message} (h : isExtended msg.tag = true) :
    expectsReply msg = false := by
  rw [expectsReply_eq]
  simp only [isExtended, Bool.or_eq_true, decide_eq_true_eq] at h
  rcases h with (((h | h) | h) | h) | h <;> rw [h] <;> rfl

/-- One message of the pipeline: the turn meets the condition and nothing is lost, or a reply is. -/
theorem Level.rule (ans : Answers srv copying) (com : Completes srv copying) (live : Live srv)
    (hsh : ∀ p c, c ∈ r.shelves p → Drained copying c) (hevent : t.event = .message m)
    (hext : isExtended m.tag = true) (h : Level copying history r.session) :
    TurnRule sha256 srv g r t (fun _ => True) (fun _ => True)
      (fun s => (Clear sha256 r t ∧ Level copying history s) ∨
        (¬ Clear sha256 r t ∧ Robbed copying history s)) := by
  have hmsg : ∀ {msg}, Forwards r t msg → expectsReply msg = false := by
    intro msg hf
    cases hevent.symm.trans hf.event
    exact isExtended_expectsReply hext
  constructor
  case idle =>
    intro hidle
    rw [hevent] at hidle
    cases hidle
  case leaves => exact fun _ _ _ _ _ _ _ => trivial
  case resets => exact fun _ _ _ _ _ _ _ => trivial
  case syncRefused => exact fun _ _ _ _ _ _ _ _ => trivial
  case sent => exact fun _ _ _ _ _ _ _ _ _ => trivial
  case policy =>
    intro msg reason hmessage hpolicy
    refine .inl ⟨fun msg' co hf => ?_, ?_, fun co hco => ?_⟩
    · cases hmessage.symm.trans hf.event
      rw [hf.accepted] at hpolicy
      cases hpolicy
    · rw [Session.log_refuse]
      exact h.books
    · rw [Session.held_refuse, Session.held_receive] at hco
      have heven := h.even co hco
      rw [Session.log_refuse]
      exact ⟨heven.calm, heven.delivered, heven.unread, heven.own⟩
  case refused =>
    intro msg s co e hf hr he
    obtain ⟨hbooks, heven⟩ := h.ready ans hsh hr
    refine .inl ⟨Clear.of_ready hf hr fun _ => by simp [Injects, he], ?_, fun co' hco' => ?_⟩
    · rw [Session.log_refuse]
      exact hbooks
    · rw [Session.held_refuse, hr.held_eq] at hco'
      cases hco'
      rw [Session.log_refuse]
      exact ⟨heven.calm, heven.delivered, heven.unread, heven.own⟩
  case dropped => exact fun _ _ _ _ _ _ _ _ _ hnone => absurd hnone (live.write _ _)
  case pipelined =>
    intro msg s co out st c c' replies hsends _
    obtain ⟨hbooks, heven⟩ := h.ready ans hsh hsends.ready
    have hcalm : Calm copying c' := by
      refine hsends.calm ans heven.calm ?_
      cases hevent.symm.trans hsends.forwards.event
      exact hext
    obtain ⟨s', rs, -, hreplies, hc'⟩ := writeForClient_spec hsends.written
    have hunread : c'.unread = c.unread ++ replies := by rw [hc']
    by_cases hclear : co.conn.unread ≠ [] → ¬ Injects sha256 msg s.statements co.conn.statements
    · refine .inl ⟨Clear.of_ready hsends.forwards hsends.ready hclear, hbooks, fun co' hco' => ?_⟩
      cases hco'
      refine ⟨hcalm, heven.delivered, ?_, fun x hx => ?_⟩
      · show c'.unread = (s.log.forward _ _ _ _).answers
        rw [Ledger.answers_forward, hunread,
          hsends.unread_before ans com live heven.calm hclear, heven.unread]
      · exact Ledger.own_forward heven.own hreplies x hx
    · -- The first reply in the queue is the client's, and the relay reads it away.
      rw [Classical.not_imp, not_not] at hclear
      obtain ⟨hne, hinjects⟩ := hclear
      obtain ⟨x, q, hq⟩ := List.exists_cons_of_ne_nil hne
      have hx : x.origin = .client := by
        refine heven.own x ?_
        rw [← heven.unread, hq]
        exact List.mem_cons_self
      have hlost := hsends.loses live hq hx hinjects
      refine .inr ⟨fun hclear => ?_, hbooks, _, rfl, hcalm, heven.delivered,
        Ledger.own_forward heven.own hreplies, ?_⟩
      · obtain ⟨results, ⟨hco, -⟩ | ⟨-, hlog⟩⟩ := hsends.ready.log_eq
        · rw [hsends.ready.statements_eq] at hinjects
          exact hclear msg co hsends.forwards hco hne hinjects
        · rw [heven.unread, hlog] at hne
          exact hne rfl
      show ownCount c'.unread < (s.log.forward _ _ _ _).answers.length
      rw [heven.unread, ownCount_of_own heven.own] at hlost
      rw [Ledger.answers_forward, List.length_append, hunread, ownCount_append, hreplies,
        ownCount_client, List.length_map]
      omega
  case kept =>
    intro msg s co out st c c' replies e delivered c'' hsends hreply
    rw [hmsg hsends.forwards] at hreply
    cases hreply
  case released =>
    intro msg s co out st c c' replies e delivered c'' hsends hreply
    rw [hmsg hsends.forwards] at hreply
    cases hreply
  case restarted =>
    intro msg s co out st c c' replies c'' r' hsends hreply
    rw [hmsg hsends.forwards] at hreply
    cases hreply

/-- What is lost stays lost. -/
theorem Robbed.rule (ans : Answers srv copying) (live : Live srv) (hevent : t.event = .message m)
    (hext : isExtended m.tag = true) (h : Robbed copying history r.session) :
    TurnRule sha256 srv g r t (fun _ => True) (fun _ => True) (Robbed copying history) := by
  have hmsg : ∀ {msg}, Forwards r t msg → expectsReply msg = false := by
    intro msg hf
    cases hevent.symm.trans hf.event
    exact isExtended_expectsReply hext
  constructor
  case idle =>
    intro hidle
    rw [hevent] at hidle
    cases hidle
  case leaves => exact fun _ _ _ _ _ _ _ => trivial
  case resets => exact fun _ _ _ _ _ _ _ => trivial
  case syncRefused => exact fun _ _ _ _ _ _ _ _ => trivial
  case sent => exact fun _ _ _ _ _ _ _ _ _ => trivial
  case policy =>
    intro msg reason _ _
    obtain ⟨co, hco, hshort⟩ := h.short
    refine ⟨?_, co, ?_, ?_⟩
    · rw [Session.log_refuse]
      exact h.books
    · rw [Session.held_refuse, Session.held_receive, hco]
    · rw [Session.log_refuse]
      exact ⟨hshort.calm, hshort.delivered, hshort.own, hshort.lost⟩
  case refused =>
    intro msg s co e hf hr he
    obtain ⟨hbooks, hshort⟩ := h.ready hr
    refine ⟨?_, co, ?_, ?_⟩
    · rw [Session.log_refuse]
      exact hbooks
    · rw [Session.held_refuse, hr.held_eq]
    · rw [Session.log_refuse]
      exact ⟨hshort.calm, hshort.delivered, hshort.own, hshort.lost⟩
  case dropped => exact fun _ _ _ _ _ _ _ _ _ hnone => absurd hnone (live.write _ _)
  case pipelined =>
    intro msg s co out st c c' replies hsends _
    obtain ⟨hbooks, hshort⟩ := h.ready hsends.ready
    have hcalm : Calm copying c' := by
      refine hsends.calm ans hshort.calm ?_
      cases hevent.symm.trans hsends.forwards.event
      exact hext
    obtain ⟨s', rs, -, hreplies, hc'⟩ := writeForClient_spec hsends.written
    have hunread : c'.unread = c.unread ++ replies := by rw [hc']
    have hle := (outgoing_asides hsends.outgoing).ownCount_le
    have hlost := hshort.lost
    refine ⟨hbooks, _, rfl, hcalm, hshort.delivered, Ledger.own_forward hshort.own hreplies, ?_⟩
    show ownCount c'.unread < (s.log.forward _ _ _ _).answers.length
    rw [Ledger.answers_forward, List.length_append, hunread, ownCount_append, hreplies,
      ownCount_client, List.length_map]
    omega
  case kept =>
    intro msg s co out st c c' replies e delivered c'' hsends hreply
    rw [hmsg hsends.forwards] at hreply
    cases hreply
  case released =>
    intro msg s co out st c c' replies e delivered c'' hsends hreply
    rw [hmsg hsends.forwards] at hreply
    cases hreply
  case restarted =>
    intro msg s co out st c c' replies c'' r' hsends hreply
    rw [hmsg hsends.forwards] at hreply
    cases hreply

/-! ## The Sync -/

/-- A `ReadyForQuery` closes the books of the exchange. -/
theorem Session.history_answered (s : Session σ) (delivered : List Reply) :
    (s.answered delivered).log.history =
      if (delivered.any fun d => opensCopy d.msg) = true then s.log.history
      else s.log.history ++ [(s.log.inFlight, s.log.delivered ++ delivered)] := by
  simp only [answered, note, deliver, Ledger.exchangeEnd]
  split_ifs <;> rfl

/-- The pump that ends an exchange delivers the whole queue. -/
theorem Sends.pumped_all {msg out : Message} {s : Session σ} {co : Checkout σ}
    {st : ClientStatements} {c c' c'' : PgBackend σ} {replies delivered : List Reply}
    {e : ExchangeEnd} (ans : Answers srv copying) (h : Calm copying co.conn)
    (hsync : isSyncPoint msg.tag = true)
    (hsends : Sends sha256 srv g r t msg s co out st c c' replies)
    (hpump : c'.pumpUntilReady t.clientAccepts = (some e, delivered, c''))
    (hcopy : (delivered.any fun d => opensCopy d.msg) = false) :
    delivered = co.conn.unread ++ replies := by
  obtain ⟨rfl, rfl, rfl⟩ := outgoing_syncPoint hsync hsends.outgoing
  obtain ⟨s', rs, hsrv, hreplies, hc'⟩ := writeForClient_spec hsends.written
  obtain ⟨front, x, hunread, hdelivered, -, hx, -, -⟩ := pumpUntilReady_some hpump
  have hready : x.msg.tag = byte 'Z' := by
    rcases hx with hx | ⟨hx, -⟩
    · exact tag_of_transactionStatus hx
    · rw [List.any_eq_false] at hcopy
      exact absurd hx (hcopy x (by simp [hdelivered]))
  have hsplit : co.conn.unread ++ rs.map (⟨.client, ·⟩) = front ++ x :: c''.unread := by
    rw [← hunread, hc', ← hreplies]
  obtain ⟨-, f, rfl, hrs⟩ := ans.split_terminal hsrv (fun hmem => h.quiet x hmem hready)
    (by simp [isTerminal, hready]) hsplit
  rw [hdelivered, List.append_assoc, hreplies, hrs]

/-- What holds of the messages in flight and the queue when the Sync goes out is in the books when it
is answered. -/
theorem sync_rule (ans : Answers srv copying) (live : Live srv) (hevent : t.event = .message m)
    (htag : m.tag = byte 'S') (hrestart : NoRestart srv g r t)
    {Q : List (Forward σ) → List Reply → Prop} (hbooks : r.session.log.history = history)
    (hready : ∀ {msg s co}, Ready srv g r t msg s co → s.log.history = history ∧
      Calm copying co.conn ∧ s.log.delivered = [])
    (hQ : ∀ {msg s co out st c c' replies}, Sends sha256 srv g r t msg s co out st c c' replies →
      Q (s.log.inFlight ++ [⟨msg, out, c.server, s.log.received, replies⟩])
        (co.conn.unread ++ replies)) :
    TurnRule sha256 srv g r t (fun _ => True) (fun _ => True)
      (fun s => ∀ flight delivered, s.log.history = history ++ [(flight, delivered)] →
        Q flight delivered) := by
  have hsync : ∀ {msg}, Forwards r t msg → isSyncPoint msg.tag = true := by
    intro msg hf
    cases hevent.symm.trans hf.event
    rw [htag]
    rfl
  have hpumped : ∀ {msg s co out st c c' replies e delivered c''},
      Sends sha256 srv g r t msg s co out st c c' replies →
      c'.pumpUntilReady t.clientAccepts = (some e, delivered, c'') →
      ∀ flight all, ((s.afterSend msg out st co c c' replies).answered delivered).log.history =
        history ++ [(flight, all)] → Q flight all := by
    intro msg s co out st c c' replies e delivered c'' hsends hpump flight all hhistory
    obtain ⟨hbooks', hcalm, hnone⟩ := hready hsends.ready
    rw [Session.history_answered] at hhistory
    split at hhistory
    case isTrue =>
      have hsame : s.log.history = history ++ [(flight, all)] := hhistory
      rw [hbooks'] at hsame
      exact absurd hsame (by simp)
    case isFalse hcopy =>
      have hsame : s.log.history ++ [(s.log.inFlight ++ [⟨msg, out, c.server, s.log.received, replies⟩],
          s.log.delivered ++ delivered)] = history ++ [(flight, all)] := hhistory
      rw [hbooks', hnone, List.nil_append, List.append_cancel_left_eq, List.cons.injEq] at hsame
      cases hsame.1
      rw [hsends.pumped_all ans hcalm (hsync hsends.forwards) hpump (by simpa using hcopy)]
      exact hQ hsends
  constructor
  case idle =>
    intro hidle
    rw [hevent] at hidle
    cases hidle
  case leaves => exact fun _ _ _ _ _ _ _ => trivial
  case resets => exact fun _ _ _ _ _ _ _ => trivial
  case syncRefused => exact fun _ _ _ _ _ _ _ _ => trivial
  case sent => exact fun _ _ _ _ _ _ _ _ _ => trivial
  case policy =>
    intro msg reason _ _ flight delivered hhistory
    rw [Session.log_refuse] at hhistory
    have hsame : r.session.log.history = history ++ [(flight, delivered)] := hhistory
    rw [hbooks] at hsame
    exact absurd hsame (by simp)
  case refused =>
    intro msg s co e hf hr he flight delivered hhistory
    rw [Session.log_refuse] at hhistory
    have hsame : s.log.history = history ++ [(flight, delivered)] := hhistory
    rw [(hready hr).1] at hsame
    exact absurd hsame (by simp)
  case dropped => exact fun _ _ _ _ _ _ _ _ _ hnone => absurd hnone (live.write _ _)
  case pipelined =>
    intro msg s co out st c c' replies hsends hreply
    rw [expectsReply_eq, hsync hsends.forwards] at hreply
    cases hreply
  case kept =>
    intro msg s co out st c c' replies e delivered c'' hsends _ hpump _ flight all hhistory
    exact hpumped hsends hpump flight all hhistory
  case released =>
    intro msg s co out st c c' replies e delivered c'' hsends _ hpump _
    exact ⟨fun flight all hhistory => hpumped hsends hpump flight all hhistory, fun _ _ => trivial⟩
  case restarted =>
    intro msg s co out st c c' replies c'' r' hsends hreply hpump hroute
    exact (hrestart.absurd hsends hreply hpump hroute).elim

/-- A Sync takes nothing in front of it. -/
theorem not_injects_sync {msg : Message} {st : ClientStatements} {b : BackendStatements}
    (h : msg.tag = byte 'S') : ¬ Injects sha256 msg st b := by
  have hnot : byte 'S' ≠ byte 'P' ∧ byte 'S' ≠ byte 'B' ∧
      ¬ (byte 'S' = byte 'D' ∨ byte 'S' = byte 'C') := by decide
  rw [Injects, rewritePrepared, h, if_neg hnot.1, if_neg hnot.2.1, if_neg hnot.2.2]
  exact id

/-- The Sync of an exchange in which nothing was lost. -/
theorem Level.sync (ans : Answers srv copying) (live : Live srv)
    (hsh : ∀ p c, c ∈ r.shelves p → Drained copying c) (hevent : t.event = .message m)
    (htag : m.tag = byte 'S') (hrestart : NoRestart srv g r t)
    (h : Level copying history r.session) :
    TurnRule sha256 srv g r t (fun _ => True) (fun _ => True)
      (fun s => ∀ flight delivered, s.log.history = history ++ [(flight, delivered)] →
        delivered = flight.flatMap Forward.replies) := by
  refine sync_rule ans live hevent htag hrestart h.books (fun hr => ?_) (fun hsends => ?_)
  · obtain ⟨hbooks, heven⟩ := h.ready ans hsh hr
    exact ⟨hbooks, heven.calm, heven.delivered⟩
  · obtain ⟨-, heven⟩ := h.ready ans hsh hsends.ready
    rw [heven.unread, Ledger.answers, List.flatMap_append, List.flatMap_singleton]

/-- The Sync of one in which something was. -/
theorem Robbed.sync (ans : Answers srv copying) (live : Live srv) (hevent : t.event = .message m)
    (htag : m.tag = byte 'S') (hrestart : NoRestart srv g r t)
    (h : Robbed copying history r.session) :
    TurnRule sha256 srv g r t (fun _ => True) (fun _ => True)
      (fun s => ∀ flight delivered, s.log.history = history ++ [(flight, delivered)] →
        delivered ≠ flight.flatMap Forward.replies) := by
  refine sync_rule ans live hevent htag hrestart h.books (fun hr => ?_) (fun hsends heq => ?_)
  · obtain ⟨hbooks, hshort⟩ := h.ready hr
    exact ⟨hbooks, hshort.calm, hshort.delivered⟩
  · obtain ⟨-, hshort⟩ := h.ready hsends.ready
    rw [List.flatMap_append, List.flatMap_singleton, List.append_cancel_right_eq] at heq
    have hlost := hshort.lost
    rw [heq, ← Ledger.answers, ownCount_of_own hshort.own] at hlost
    omega

/-- A session that goes on has not ended. -/
theorem exit_before {s : Session σ} {v : Visit σ} (h : (sessionStep sha256 srv g s v).exit = none) :
    s.exit = none := by
  by_contra hexit
  rw [sessionStep_ended hexit] at h
  exact hexit h

/-- An exchange can begin: nothing is in flight, and the backend, if one is held, has nothing left to
say. -/
structure Session.Between (copying : σ → Prop) (s : Session σ) : Prop where
  going : s.exit = none
  inFlight : s.log.inFlight = []
  delivered : s.log.delivered = []
  held : ∀ co, s.held = some co → Drained copying co.conn

/-- **Reply conservation.** In an exchange that a Sync ends, the client gets exactly the replies to its
own messages, in order, if and only if the relay sends nothing of its own while a reply is unread. -/
theorem replies_conserved (ans : Answers srv copying) (com : Completes srv copying) (live : Live srv)
    {s : Session σ} {vs : List (Visit σ)} {v : Visit σ} {sync : Message}
    {flight : List (Forward σ)} {delivered : List Reply} (hstart : s.Between copying)
    (hshelves : ∀ w ∈ vs ++ [v], ∀ p c, c ∈ w.shelves p → Drained copying c)
    (hvs : ∀ w ∈ vs, ∃ m, w.turn.event = .message m ∧ isExtended m.tag = true)
    (hv : v.turn.event = .message sync ∧ sync.tag = byte 'S')
    (hrestart : NoRestart srv g (v.relay (run (sessionStep sha256 srv g) s vs)) v.turn)
    (hgoing : (run (sessionStep sha256 srv g) s (vs ++ [v])).exit = none)
    (hend : (run (sessionStep sha256 srv g) s (vs ++ [v])).log.history =
      s.log.history ++ [(flight, delivered)]) :
    delivered = flight.flatMap Forward.replies ↔
      Along (sessionStep sha256 srv g) (fun s v => Clear sha256 (v.relay s) v.turn) s (vs ++ [v]) := by
  have hlevel : Level copying s.log.history s := by
    refine ⟨rfl, fun co hco => ?_⟩
    have hdrained := hstart.held co hco
    have hnothing : s.log.answers = [] := by rw [Ledger.answers, hstart.inFlight, List.flatMap_nil]
    refine ⟨⟨hdrained.quiet, hdrained.still⟩, hstart.delivered, ?_, ?_⟩
    · rw [hdrained.unread, hnothing]
    · simp [hnothing]
  have hvalid : Along (sessionStep sha256 srv g) (fun _ w => (∀ p c, c ∈ w.shelves p → Drained copying c) ∧
      ∃ m, w.turn.event = .message m ∧ isExtended m.tag = true) s vs :=
    Along.of_forall fun w hw _ => ⟨hshelves w (List.mem_append_left _ hw), hvs w hw⟩
  have hsync : ∀ s : Session σ, Clear sha256 (v.relay s) v.turn := by
    intro s msg co hf _ _
    cases hv.1.symm.trans hf.event
    exact not_injects_sync hv.2
  rw [run_append, run_cons, run_nil] at hgoing hend
  rw [Along.append]
  have hbefore : (run (sessionStep sha256 srv g) s vs).exit = none := exit_before hgoing
  have hlast : ∀ p c, c ∈ (v.relay (run (sessionStep sha256 srv g) s vs)).shelves p → Drained copying c :=
    hshelves v (by simp)
  -- A session that has ended counts both ways: it does not reach the Sync.
  have hways : (Along (sessionStep sha256 srv g) (fun s v => Clear sha256 (v.relay s) v.turn) s vs ∧
        ((run (sessionStep sha256 srv g) s vs).exit ≠ none ∨
          Level copying s.log.history (run (sessionStep sha256 srv g) s vs))) ∨
      (¬ Along (sessionStep sha256 srv g) (fun s v => Clear sha256 (v.relay s) v.turn) s vs ∧
        ((run (sessionStep sha256 srv g) s vs).exit ≠ none ∨
          Robbed copying s.log.history (run (sessionStep sha256 srv g) s vs))) := by
    refine hvalid.good_or_bad (G := fun s' => s'.exit ≠ none ∨ Level copying s.log.history s')
      (B := fun s' => s'.exit ≠ none ∨ Robbed copying s.log.history s') ?_ ?_ (.inr hlevel)
    · rintro s' w ⟨hdrained, m, hevent, hext⟩ hgood
      by_cases hexit : (sessionStep sha256 srv g s' w).exit = none
      · have hlevel' : Level copying s.log.history (w.relay s').session :=
          hgood.resolve_left (not_not.mpr (exit_before hexit))
        have hrule : TurnRule sha256 srv g (w.relay s') w.turn _ _ _ :=
          Level.rule ans com live hdrained hevent hext hlevel'
        obtain ⟨hclear, hnext⟩ | ⟨hclear, hnext⟩ := (relayStep_kept hrule).session hexit
        · exact .inl ⟨hclear, .inr hnext⟩
        · exact .inr ⟨hclear, .inr hnext⟩
      · by_cases hclear : Clear sha256 (w.relay s') w.turn
        · exact .inl ⟨hclear, .inl hexit⟩
        · exact .inr ⟨hclear, .inl hexit⟩
    · rintro s' w ⟨-, m, hevent, hext⟩ hbad
      by_cases hexit : (sessionStep sha256 srv g s' w).exit = none
      · have hrobbed : Robbed copying s.log.history (w.relay s').session :=
          hbad.resolve_left (not_not.mpr (exit_before hexit))
        have hrule : TurnRule sha256 srv g (w.relay s') w.turn _ _ _ :=
          Robbed.rule ans live hevent hext hrobbed
        exact .inr ((relayStep_kept hrule).session hexit)
      · exact .inl hexit
  obtain ⟨hclear, hlevel'⟩ | ⟨hclear, hrobbed⟩ := hways
  · refine iff_of_true ?_ ⟨hclear, hsync _, trivial⟩
    exact (relayStep_kept (Level.sync ans live hlast hv.1 hv.2 hrestart
      (hlevel'.resolve_left (not_not.mpr hbefore)))).session hgoing flight delivered hend
  · refine iff_of_false ?_ fun h => hclear h.1
    exact (relayStep_kept (Robbed.sync ans live hv.1 hv.2 hrestart
      (hrobbed.resolve_left (not_not.mpr hbefore)))).session hgoing flight delivered hend

end Laws

/-! ## Two statements and one -/

theorem Session.new_between : ({} : Session Mini.State).Between (fun s => s.mode = .copy true) :=
  ⟨rfl, rfl, rfl, fun _ h => (by cases h)⟩

/-- The turns of an exchange that prepares a statement and executes something behind it. -/
def preparedTurns : List (Visit Mini.State) :=
  [.alone (.message (parseAs "SELECT 1".toList)), .alone (.message executeUnnamed)]

/-- Both replies reach the client, and nothing was injected. -/
theorem replies_conserved_select :
    ∃ flight delivered,
      (run (sessionStep sampleDigest Mini.server .plain) {}
        (preparedTurns ++ [.alone (.message .sync)])).log.history = [(flight, delivered)] ∧
      delivered.map (fun x => x.msg.tag) = [byte '1', byte 'C', byte 'Z'] ∧
      Along (sessionStep sampleDigest Mini.server .plain)
        (fun s v => Clear sampleDigest (v.relay s) v.turn) {}
        (preparedTurns ++ [.alone (.message .sync)]) := by
  have hbooks : ((run (sessionStep sampleDigest Mini.server .plain) {}
      (preparedTurns ++ [.alone (.message .sync)])).log.history.map fun p =>
        (decide (p.2 = p.1.flatMap Forward.replies), p.2.map fun x => x.msg.tag)) =
      [(true, [byte '1', byte 'C', byte 'Z'])] := by decide +kernel
  obtain ⟨⟨flight, delivered⟩, hhistory, hvalues⟩ := List.map_eq_singleton_iff.mp hbooks
  simp only [Prod.mk.injEq, decide_eq_true_eq] at hvalues
  refine ⟨flight, delivered, hhistory, hvalues.2,
    (replies_conserved Mini.answers Mini.completes Mini.live Session.new_between ?_ ?_ ⟨rfl, rfl⟩ ?_ ?_
      hhistory).mp hvalues.1⟩
  · intro w hw p c hc
    simp only [preparedTurns, List.mem_append, List.mem_cons, List.not_mem_nil, or_false] at hw
    rcases hw with (rfl | rfl) | rfl <;> cases hc
  · intro w hw
    simp only [preparedTurns, List.mem_cons, List.not_mem_nil, or_false] at hw
    rcases hw with rfl | rfl
    · exact ⟨_, rfl, by decide⟩
    · exact ⟨_, rfl, by decide⟩
  · have hroute : (run (sessionStep sampleDigest Mini.server .plain) {}
        preparedTurns).currentRoute.isReplica = false := by decide +kernel
    have htx : (run (sessionStep sampleDigest Mini.server .plain) {}
        preparedTurns).routing.transactionRoute = none := by decide +kernel
    refine noRestart_of_primary hroute fun _ => ?_
    generalize run (sessionStep sampleDigest Mini.server .plain) {} preparedTurns = s at htx
    rw [chooseRoute_plain (r := Visit.relay _ s) htx]
    rfl
  · decide +kernel

/-- One statement under two names: the second `Parse` closes the name the first one took, and the
`ParseComplete` of the first is read away with the answer. -/
theorem not_replies_conserved :
    ¬ ∀ (s : Session Mini.State) (vs : List (Visit Mini.State)) (v : Visit Mini.State)
        (flight : List (Forward Mini.State)) (delivered : List Reply),
      s.Between (fun s => s.mode = .copy true) →
      (∀ w ∈ vs ++ [v], ∀ p, w.shelves p = []) →
      (∀ w ∈ vs, ∃ m, w.turn.event = .message m ∧ isExtended m.tag = true) →
      v.turn.event = .message .sync →
      (run (sessionStep sampleDigest Mini.server .plain) s (vs ++ [v])).exit = none →
      (run (sessionStep sampleDigest Mini.server .plain) s (vs ++ [v])).log.history =
        s.log.history ++ [(flight, delivered)] →
      delivered = flight.flatMap Forward.replies := by
  intro h
  have hbooks : ((run (sessionStep sampleDigest Mini.server .plain) {}
      ([.alone (.message (parseAs "SELECT 1".toList)),
        .alone (.message ⟨byte 'P', buildParse (Text.asBytes ['t'])
          (Text.asBytes "SELECT 1".toList) [0, 0]⟩)] ++ [.alone (.message .sync)])).log.history.map
        fun p => (p.2.length, (p.1.flatMap Forward.replies).length)) = [(2, 3)] := by
    decide +kernel
  obtain ⟨⟨flight, delivered⟩, hhistory, hvalues⟩ := List.map_eq_singleton_iff.mp hbooks
  simp only [Prod.mk.injEq] at hvalues
  have heq := h {} _ _ flight delivered Session.new_between ?_ ?_ rfl ?_ hhistory
  · rw [← heq, hvalues.1] at hvalues
    exact absurd hvalues.2 (by decide)
  · intro w hw p
    simp only [List.mem_append, List.mem_cons, List.not_mem_nil, or_false] at hw
    rcases hw with (rfl | rfl) | rfl <;> rfl
  · intro w hw
    simp only [List.mem_cons, List.not_mem_nil, or_false] at hw
    rcases hw with rfl | rfl
    · exact ⟨_, rfl, by decide⟩
    · exact ⟨_, rfl, by decide⟩
  · decide +kernel

end Havuz
