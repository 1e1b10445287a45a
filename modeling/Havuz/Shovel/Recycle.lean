import Havuz.Server.Mini
import Havuz.Shovel.Scanner

/-!
# Recycling in session mode

After a session the backend may still owe a response, and the relay may have left off in the middle of
one. The reset writes `ROLLBACK` and `DISCARD ALL` behind that and takes the next `ReadyForQuery` for the
answer to each. `Settles` says when that is right: reading on from where the relay left off gets to the
end of what is owed, or to an error, before it gets to a `ReadyForQuery`. Then a connection that comes out
cleaned owes nothing (`session_recycle_in_step`); a query whose response is still in flight when the
client says goodbye is the run in which it does not.

A client that vanishes in the middle of a message does no harm here: the `ROLLBACK` then goes into that
message, and either completes it with its last byte or leaves the reset without an answer.
-/

namespace Havuz

open Lib

variable {σ : Type}

/-! ## Requests and replies -/

/-- What a server sends back when it is sent some requests. -/
def repliesTo (srv : Server σ) : σ → List Message → Bytes
  | _, [] => []
  | s, m :: ms =>
      match srv.write s m with
      | none => []
      | some (s', rs) => rs.flatMap Message.encode ++ repliesTo srv s' ms

/-- The bytes still to be read are the replies to the requests that are sent from now on. -/
def ByteStream.InStep (srv : Server σ) (st : ByteStream σ) : Prop :=
  ∀ ms : List Message, (∀ m ∈ ms, m.Fits) →
    (st.feed srv (ms.flatMap Message.encode)).unread = repliesTo srv st.server ms

theorem ByteStream.unread_feed_requests {srv : Server σ} {ms : List Message} {st : ByteStream σ}
    (hopen : st.closed = false) (hwhole : st.unfinished = []) (hfits : ∀ m ∈ ms, m.Fits) :
    (st.feed srv (ms.flatMap Message.encode)).unread = st.unread ++ repliesTo srv st.server ms := by
  induction ms generalizing st with
  | nil => exact (List.append_nil _).symm
  | cons m ms ih =>
      have hrest : ∀ m' ∈ ms, m'.Fits := fun m' hm' => hfits m' (List.mem_cons_of_mem m hm')
      rw [List.flatMap_cons, feed_append, feed_encode hopen hwhole (hfits m List.mem_cons_self),
        repliesTo]
      cases hwrite : srv.write st.server m with
      | none =>
          rw [deliver_of_dead hwrite, feed_of_closed rfl, List.append_nil]
      | some answer =>
          obtain ⟨server, rs⟩ := answer
          have hopen' : (st.deliver srv m).closed = false := by
            rw [deliver_of_write hwrite]
            exact hopen
          rw [ih hopen' (deliver_unfinished m) hrest, deliver_of_write hwrite]
          exact List.append_assoc ..

/-- Nothing owed on either side. -/
theorem ByteStream.inStep {srv : Server σ} {st : ByteStream σ} (hopen : st.closed = false)
    (hwhole : st.unfinished = []) (hread : st.unread = []) : st.InStep srv := by
  intro ms hfits
  rw [unread_feed_requests hopen hwhole hfits, hread, List.nil_append]

/-! ## Reading what is owed -/

/-- Reading on gets to the end, or to an error, before it gets to a `ReadyForQuery`. -/
inductive Settles : Bytes → Prop where
  | done : Settles []
  | message {bs rest : Bytes} {m : Message} : Message.read bs = .message m rest → m.tag ≠ byte 'Z' →
      m.tag ≠ byte 'E' → Settles rest → Settles bs
  | error {bs rest : Bytes} {m : Message} : Message.read bs = .message m rest → m.tag = byte 'E' →
      Settles bs
  | failed {bs : Bytes} : Message.read bs = .failed → Settles bs

theorem drainLoop_stable {fuel fuel' : Nat} {bs : Bytes} (h : bs.length < fuel)
    (h' : bs.length < fuel') : drainLoop fuel bs = drainLoop fuel' bs := by
  induction fuel generalizing bs fuel' with
  | zero => omega
  | succ fuel ih =>
      cases fuel' with
      | zero => omega
      | succ fuel' =>
          rw [drainLoop, drainLoop]
          cases hread : Message.read bs with
          | waits => rfl
          | failed => rfl
          | message m rest =>
              have hless := Message.length_of_read hread
              rw [headerLen] at hless
              dsimp only
              have hrest : drainLoop fuel rest = drainLoop fuel' rest := ih (by omega) (by omega)
              rw [hrest]

theorem drain_of_read {bs rest : Bytes} {m : Message} (h : Message.read bs = .message m rest) :
    drain bs =
      if m.tag = byte 'Z' then .ready rest
      else if m.tag = byte 'E' then .failed rest
      else drain rest := by
  have hless := Message.length_of_read h
  rw [headerLen] at hless
  rw [drain, drainLoop, h]
  have hrest : drainLoop bs.length rest = drain rest := drainLoop_stable (by omega) (by omega)
  dsimp only
  rw [hrest]

theorem drain_of_failed {bs : Bytes} (h : Message.read bs = .failed) : drain bs = .failed bs := by
  rw [drain, drainLoop, h]

/-- What settles is read to its end, or the reset fails there. -/
theorem drain_settles {owed : Bytes} (h : Settles owed) (more : Bytes) :
    drain (owed ++ more) = drain more ∨ ∃ rest, drain (owed ++ more) = .failed rest := by
  induction h with
  | done => exact .inl rfl
  | message hread hready herror _ ih =>
      rw [drain_of_read (Message.read_append hread more), if_neg hready, if_neg herror]
      exact ih
  | error hread herror =>
      rw [drain_of_read (Message.read_append hread more), if_neg (by rw [herror]; decide), if_pos herror]
      exact .inr ⟨_, rfl⟩
  | failed hread => exact .inr ⟨_, drain_of_failed (Message.read_append_failed hread more)⟩

/-- An answer with nothing after its `ReadyForQuery` is read in full. -/
theorem drain_answer {rs : List Message} {rest : Bytes} (hfits : ∀ x ∈ rs, x.Fits)
    (hlast : ∀ front x back, rs = front ++ x :: back → x.tag = byte 'Z' → back = [])
    (h : drain (rs.flatMap Message.encode) = .ready rest) : rest = [] := by
  induction rs with
  | nil => cases h
  | cons x rs ih =>
      rw [List.flatMap_cons] at h
      obtain hread | hread := Message.read_encode (hfits x List.mem_cons_self) (rs.flatMap Message.encode)
      · rw [drain_of_read hread] at h
        split_ifs at h with hready
        · cases h
          rw [hlast [] x rs rfl hready]
          rfl
        · refine ih (fun y hy => hfits y (List.mem_cons_of_mem x hy)) (fun front y back hsplit hy => ?_) h
          exact hlast (x :: front) y back (by rw [hsplit]; rfl) hy
      · rw [drain_of_failed hread] at h
        cases h

/-! ## A query of the reset -/

/-- While the connection is up, what the server has of a request is not the whole of it. -/
def ByteStream.Sound (st : ByteStream σ) : Prop :=
  st.closed = false → frameOf st.unfinished = .short

namespace ByteStream

variable {srv : Server σ} {st : ByteStream σ}

theorem sound_deliver (m : Message) : (st.deliver srv m).Sound := by
  intro _
  rw [deliver_unfinished]
  rfl

theorem sound_feedByte (h : st.Sound) (b : UInt8) : (st.feedByte srv b).Sound := by
  unfold feedByte
  split_ifs with hclosed
  · exact h
  · cases hframe : frameOf (st.unfinished ++ [b]) with
    | short => exact fun _ => hframe
    | bad => exact nofun
    | message m => exact sound_deliver m

theorem sound_feed (h : st.Sound) (bs : Bytes) : (st.feed srv bs).Sound := by
  induction bs generalizing st with
  | nil => exact h
  | cons b bs ih => exact ih (sound_feedByte h b)

/-- What some bytes do when they come behind a request that is not complete: nothing yet, or the end of
the connection, or the completion of a request somewhere among them. -/
theorem feed_behind (srv : Server σ) {st : ByteStream σ} (hsound : st.Sound) (bs : Bytes) :
    (st.feed srv bs).unread = st.unread ∨
      ∃ front b back m, bs = front ++ b :: back ∧ st.feed srv bs = (st.deliver srv m).feed srv back := by
  induction bs generalizing st with
  | nil => exact .inl rfl
  | cons b bs ih =>
      cases hclosed : st.closed with
      | true =>
          rw [feed_of_closed hclosed]
          exact .inl rfl
      | false =>
          have hcons : st.feed srv (b :: bs) = (st.feedByte srv b).feed srv bs := rfl
          have hbyte : (st.feedByte srv b).Sound := sound_feedByte hsound b
          rw [hcons]
          cases hframe : frameOf (st.unfinished ++ [b]) with
          | short =>
              have hkeep : (st.feedByte srv b).unread = st.unread := by
                simp only [feedByte, hclosed, Bool.false_eq_true, if_false, hframe]
              obtain hsame | ⟨front, b', back, m, hsplit, hfeed⟩ := ih hbyte
              · exact .inl (hsame.trans hkeep)
              · refine .inr ⟨b :: front, b', back, m, by rw [hsplit]; rfl, ?_⟩
                rw [hfeed]
                simp only [feedByte, hclosed, Bool.false_eq_true, if_false, hframe, deliver]
          | bad =>
              have hup : (st.feedByte srv b).closed = true ∧ (st.feedByte srv b).unread = st.unread := by
                simp only [feedByte, hclosed, Bool.false_eq_true, if_false, hframe, and_self]
              rw [feed_of_closed hup.1]
              exact .inl hup.2
          | message m =>
              have hdone : st.feedByte srv b = st.deliver srv m := by
                simp only [feedByte, hclosed, Bool.false_eq_true, if_false, hframe]
              exact .inr ⟨[], b, bs, m, rfl, by rw [hdone]⟩

end ByteStream

/-- The replies of a server fit their length fields. -/
def RepliesFit (srv : Server σ) : Prop :=
  ∀ {s m s' rs}, srv.write s m = some (s', rs) → ∀ x ∈ rs, x.Fits

/-- No rest of a message is a message, nor longer than one. -/
def NoRest (sql : Text) : Prop :=
  ∀ back ∈ (Message.query sql).encode.tail.tails, frameOf back = .short

instance (sql : Text) : Decidable (NoRest sql) := List.decidableBAll _ _

/-- A query of the reset that reads a `ReadyForQuery` has read what was owed and the answer to the
request it completed, and no more. -/
theorem drain_query {srv : Server σ} {copying : σ → Prop} (hanswers : Answers srv copying)
    (hreplies : RepliesFit srv) {st : ByteStream σ} (hsound : st.Sound) (hsettles : Settles st.unread)
    {sql : Text} (hrest : NoRest sql) {rest : Bytes}
    (h : drain (st.feed srv (Message.query sql).encode).unread = .ready rest) :
    rest = [] ∧ (st.feed srv (Message.query sql).encode).closed = false ∧
      (st.feed srv (Message.query sql).encode).unfinished ∈ (Message.query sql).encode.tail.tails := by
  -- Without an answer nothing but what was owed is read.
  have hunanswered : (st.feed srv (Message.query sql).encode).unread ≠ st.unread := by
    intro hsame
    rw [hsame, ← List.append_nil st.unread] at h
    obtain hwaits | ⟨rest, hfailed⟩ := drain_settles hsettles []
    · rw [hwaits] at h
      cases h
    · rw [hfailed] at h
      cases h
  obtain hsame | ⟨front, b, back, m, hsplit, hfeed⟩ :=
    ByteStream.feed_behind srv hsound (Message.query sql).encode
  · exact absurd hsame hunanswered
  have hback : back ∈ (Message.query sql).encode.tail.tails := by
    rw [hsplit, List.mem_tails]
    cases front with
    | nil => exact List.suffix_rfl
    | cons a front => exact ⟨front ++ [b], by simp⟩
  cases hwrite : srv.write st.server m with
  | none =>
      rw [hfeed, ByteStream.deliver_of_dead hwrite, ByteStream.feed_of_closed rfl] at hunanswered
      exact absurd rfl hunanswered
  | some answer =>
      obtain ⟨server, rs⟩ := answer
      cases hclosed : st.closed with
      | true =>
          rw [ByteStream.feed_of_closed hclosed] at hunanswered
          exact absurd rfl hunanswered
      | false =>
          have hopen : (st.deliver srv m).closed = false := by
            rw [ByteStream.deliver_of_write hwrite]
            exact hclosed
          have hkept : (st.deliver srv m).feed srv back = _ := ByteStream.feed_short hopen
            (by rw [ByteStream.deliver_unfinished]; exact hrest back hback)
          rw [ByteStream.deliver_unfinished, List.nil_append] at hkept
          rw [hfeed, hkept] at h ⊢
          refine ⟨?_, hopen, hback⟩
          rw [ByteStream.deliver_of_write hwrite] at h
          obtain hmore | ⟨rest', hfailed⟩ := drain_settles hsettles (rs.flatMap Message.encode)
          · dsimp only at h
            rw [hmore] at h
            refine drain_answer (hreplies hwrite) (fun front x back hsplit hready => ?_) h
            exact hanswers.terminal_last hwrite front x back hsplit (by rw [isTerminal, hready]; rfl)
          · dsimp only at h
            rw [hfailed] at h
            cases h

/-! ## The reset -/

namespace StreamBackend

variable {srv : Server σ} {b b' : StreamBackend σ}

/-- A query that leaves the connection whole has read a `ReadyForQuery`. -/
theorem simpleQuery_good {sql : Text} {cut : Option Nat} (h : b.simpleQuery srv sql cut = some b')
    (hgood : b'.broken = false) :
    b.broken = false ∧ ∃ rest, drain (b.stream.feed srv (Message.query sql).encode).unread = .ready rest ∧
      b'.stream = { b.stream.feed srv (Message.query sql).encode with unread := rest } := by
  unfold simpleQuery at h
  split_ifs at h with hbroken
  · cases h
    rw [hbroken] at hgood
    cases hgood
  refine ⟨Bool.eq_false_iff.mpr hbroken, ?_⟩
  cases cut with
  | some k =>
      cases h
      cases hgood
  | none =>
      dsimp only at h
      cases hdrain : drain (b.stream.feed srv (Message.query sql).encode).unread with
      | ready rest =>
          rw [hdrain] at h
          cases h
          exact ⟨rest, rfl, rfl⟩
      | failed rest =>
          rw [hdrain] at h
          cases h
          cases hgood
      | waits =>
          rw [hdrain] at h
          dsimp only at h
          split_ifs at h
          cases h
          cases hgood

/-- A reset that reports the connection cleaned ran both of its queries well. -/
theorem reset_cleaned {cuts : Option Nat × Option Nat} (h : b.reset srv cuts = some (.cleaned, b')) :
    ∃ b₁ b₂, b.simpleQuery srv "ROLLBACK".toList cuts.1 = some b₁ ∧
      b₁.simpleQuery srv b₁.discardStatement cuts.2 = some b₂ ∧ b₂.broken = false ∧
      b'.stream = b₂.stream := by
  unfold reset at h
  split_ifs at h with hbroken
  · cases h
  cases hrollback : b.simpleQuery srv "ROLLBACK".toList cuts.1 with
  | none =>
      rw [hrollback] at h
      cases h
  | some b₁ =>
      rw [hrollback] at h
      dsimp only at h
      cases hdiscard : b₁.simpleQuery srv b₁.discardStatement cuts.2 with
      | none =>
          rw [hdiscard] at h
          cases h
      | some b₂ =>
          rw [hdiscard] at h
          dsimp only at h
          have hgood : b₂.broken = false := by
            cases hb : b₂.broken with
            | false => rfl
            | true =>
                rw [hb] at h
                cases h
          simp only [hgood, Bool.false_eq_true, if_false, Option.some.injEq, Prod.mk.injEq,
            true_and] at h
          exact ⟨b₁, b₂, rfl, hdiscard, hgood, by rw [← h]⟩

theorem discardStatement_noRest (b : StreamBackend σ) : NoRest b.discardStatement := by
  unfold discardStatement
  split
  · decide +kernel
  · decide +kernel

theorem discardStatement_fits (b : StreamBackend σ) : (Message.query b.discardStatement).Fits := by
  unfold discardStatement
  split
  · decide
  · decide

/-- Behind a rest of the `ROLLBACK` the second query completes nothing. -/
theorem discardStatement_behind (b : StreamBackend σ) {back : Bytes}
    (hback : back ∈ (Message.query "ROLLBACK".toList).encode.tail.tails) (hne : back ≠ []) :
    frameOf (back ++ (Message.query b.discardStatement).encode) = .short := by
  revert back
  unfold discardStatement
  split
  · decide +kernel
  · decide +kernel

/-- A connection that comes out of the reset cleaned owes nothing, on either side. -/
theorem reset_clear {copying : σ → Prop} (hanswers : Answers srv copying) (hreplies : RepliesFit srv)
    {cuts : Option Nat × Option Nat} (hsound : b.stream.Sound) (hsettles : Settles b.stream.unread)
    (h : b.reset srv cuts = some (.cleaned, b')) :
    b'.stream.closed = false ∧ b'.stream.unfinished = [] ∧ b'.stream.unread = [] := by
  obtain ⟨b₁, b₂, hrollback, hdiscard, hgood, hstream⟩ := reset_cleaned h
  obtain ⟨hgood₁, rest₂, hdrain₂, hstream₂⟩ := simpleQuery_good hdiscard hgood
  obtain ⟨-, rest₁, hdrain₁, hstream₁⟩ := simpleQuery_good hrollback hgood₁
  obtain ⟨rfl, hopen₁, hback⟩ := drain_query hanswers hreplies hsound hsettles (by decide +kernel) hdrain₁
  have hunread₁ : b₁.stream.unread = [] := by rw [hstream₁]
  have hup₁ : b₁.stream.closed = false := by
    rw [hstream₁]
    exact hopen₁
  have hsound₁ : b₁.stream.Sound := by
    rw [hstream₁]
    exact ByteStream.sound_feed hsound _
  obtain ⟨rfl, hopen₂, -⟩ := drain_query hanswers hreplies hsound₁ (by rw [hunread₁]; exact .done)
    b₁.discardStatement_noRest hdrain₂
  rw [hstream, hstream₂]
  refine ⟨hopen₂, ?_, rfl⟩
  by_cases hwhole : b₁.stream.unfinished = []
  · have hfeed : b₁.stream.feed srv _ = _ :=
      ByteStream.feed_encode hup₁ hwhole b₁.discardStatement_fits
    rw [hfeed]
    exact ByteStream.deliver_unfinished _
  · -- The rest of the `ROLLBACK` would swallow the second query, which then has no answer.
    have hrest : b₁.stream.unfinished ∈ (Message.query "ROLLBACK".toList).encode.tail.tails := by
      rw [hstream₁]
      exact hback
    have hfeed : b₁.stream.feed srv _ = _ :=
      ByteStream.feed_short hup₁ (b₁.discardStatement_behind hrest hwhole)
    rw [hfeed, hunread₁] at hdrain₂
    cases hdrain₂

end StreamBackend

/-! ## A session -/

theorem Shovel.sound_step {srv : Server σ} {r : Shovel σ} (h : r.stream.Sound) (e : ShovelEvent) :
    (r.step srv e).stream.Sound := by
  have hforward : ∀ (r : Shovel σ) bs cut, r.stream.Sound → (r.forward srv bs cut).stream.Sound := by
    intro r bs cut h
    cases cut with
    | none => exact ByteStream.sound_feed h bs
    | some k => exact ByteStream.sound_feed h (bs.take k)
  unfold step
  split_ifs
  · exact h
  · split
    · exact h
    · exact h
    · unfold onClient
      split
      · dsimp only
        split_ifs
        · exact hforward _ _ _ h
        · exact hforward _ _ _ h
        · exact h
      · exact hforward _ _ _ h
    · unfold onBackend
      dsimp only
      split_ifs <;> exact h
    · exact h
    · exact h

/-- The relay has returned because the client left: no kick, no end of stream from the backend, no
failure. -/
def Shovel.ClientLeft (r : Shovel σ) : Prop :=
  r.ending = some .ok ∧ r.stats.backendClosed = false ∧ r.stats.kicked = false

instance (r : Shovel σ) : Decidable r.ClientLeft := inferInstanceAs (Decidable (_ ∧ _ ∧ _))

/-- **Cleaned is in step.** Take any interleaving of the chunks of the two directions, cut anywhere, until
the client leaves, and let what the backend still owes then settle. Then a connection that the recycling
reports as cleaned has nothing to be read but the replies to what is sent from then on. -/
theorem session_recycle_in_step {srv : Server σ} {copying : σ → Prop} (hanswers : Answers srv copying)
    (hreplies : RepliesFit srv) {c c' : SessionCheckout σ} (hwhole : c.conn.stream.unfinished = [])
    {events : List ShovelEvent} {r : Shovel σ}
    (hrun : run (Shovel.step srv) (.start c.conn.stream) events = r) (hleft : r.ClientLeft)
    (hsettles : Settles r.stream.unread) {cuts : Option Nat × Option Nat}
    (hclean : r.release srv cuts c = some (.cleaned, c')) : c'.conn.stream.InStep srv := by
  obtain ⟨hending, hclosed, hkicked⟩ := hleft
  have hsound : r.stream.Sound := by
    rw [← hrun]
    refine run_invariant (I := fun r : Shovel σ => r.stream.Sound)
      (fun r e h => Shovel.sound_step h e) ?_ events
    intro _
    rw [Shovel.start, hwhole]
    rfl
  simp only [Shovel.release, hending, hclosed, hkicked, Bool.or_self, Bool.false_eq_true, if_false,
    SessionCheckout.recycle] at hclean
  split at hclean
  · cases hclean
  · cases hclean
  · rename_i conn hreset
    cases hclean
    obtain ⟨hup, hrequest, hread⟩ := StreamBackend.reset_clear hanswers hreplies hsound hsettles hreset
    exact ByteStream.inStep hup hrequest hread

namespace Mini

theorem repliesFit : RepliesFit server := by
  intro s m s' rs hwrite x hx
  obtain ⟨rfl, rfl⟩ := Prod.mk.inj (Option.some.inj hwrite)
  rcases List.mem_append.mp hx with hx | hx
  · obtain ⟨p, -, rfl⟩ := List.mem_map.mp hx
    cases p <;> decide
  · cases hend : (s.answer m).ending with
    | «open» => simp [hend] at hx
    | ready =>
        obtain rfl : x = .readyForQuery (s.answer m).state.status := by simpa [hend] using hx
        show (1 : Nat) + 4 < 2 ^ 31
        decide
    | copyIn =>
        obtain rfl : x = ⟨byte 'G', []⟩ := by simpa [hend] using hx
        decide

/-- A connection fresh from the pool. -/
def checkout : SessionCheckout State :=
  { conn := { stream := { server := {} }, supportsDiscardAll := true } }

/-- A session on it. -/
def session (events : List ShovelEvent) : Shovel State :=
  run (Shovel.step server) (.start checkout.conn.stream) events

/-- A query cut in two whose response is relayed in two pieces, then a `Parse` with the goodbye behind
it. The `ParseComplete` is still owed when the client has left. -/
def parting : List ShovelEvent :=
  let query := (Message.query "SELECT 1".toList).encode
  let parse : Message := ⟨byte 'P', Message.cstring "s".toList ++ Message.cstring "SELECT 1".toList⟩
  [.client (query.take 3) none, .client (query.drop 3) none, .backend 3 true, .backend 100 true,
    .client (parse.encode ++ [byte 'X']) none]

/-- A query with the goodbye right behind it, in one chunk. -/
def hasty : List ShovelEvent := [.client ((Message.query "SELECT 1".toList).encode ++ [byte 'X']) none]

end Mini

theorem session_recycle_in_step_parse :
    ∃ c', (Mini.session Mini.parting).release Mini.server (none, none) Mini.checkout =
        some (.cleaned, c') ∧ c'.conn.stream.InStep Mini.server := by
  have hclean : (Mini.session Mini.parting).release Mini.server (none, none) Mini.checkout =
      some (.cleaned, Mini.checkout) := by decide +kernel
  have hsettles : Settles (Mini.session Mini.parting).stream.unread := by
    have howed : (Mini.session Mini.parting).stream.unread = (⟨byte '1', []⟩ : Message).encode := by
      decide +kernel
    have hread : Message.read (⟨byte '1', []⟩ : Message).encode = .message ⟨byte '1', []⟩ [] := by
      decide +kernel
    rw [howed]
    exact .message hread (by decide) (by decide) .done
  exact ⟨_, hclean, session_recycle_in_step Mini.answers Mini.repliesFit rfl rfl (by decide +kernel)
    hsettles hclean⟩

/-- The response to the hasty query is taken for the answer to `ROLLBACK`, that answer for the one to
`DISCARD ALL`, and the connection is reported cleaned with one answer too many on it. -/
theorem not_session_recycle_in_step :
    ∃ c', (Mini.session Mini.hasty).ClientLeft ∧ (Mini.session Mini.hasty).stats.clientTerminated = true ∧
      (Mini.session Mini.hasty).release Mini.server (none, none) Mini.checkout = some (.cleaned, c') ∧
        ¬ c'.conn.stream.InStep Mini.server := by
  refine ⟨⟨{ Mini.checkout.conn with
    stream := { server := {}, unread := [⟨byte 'C', []⟩, .readyForQuery .idle].flatMap Message.encode } },
    false⟩, by decide +kernel, by decide +kernel, by decide +kernel, fun hstep => ?_⟩
  have hread := hstep [] (by simp)
  revert hread
  decide

end Havuz
