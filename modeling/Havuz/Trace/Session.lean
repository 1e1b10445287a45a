import Mathlib.Logic.Function.Basic
import Havuz.Lib.Run
import Havuz.Wire

/-!
# The spans of a session

Reference: `SessionTrace` and `FrameObserver` of `havuz-pg/src/relay.rs`. The two directions are read side by side, and a
span gets the replies that come while it is the oldest one open: nothing but the order ties it to its exchange.

`Exchanges` is what passed between the client and PostgreSQL, and `Matches` that the spans are those of the exchanges that
opened one. `spans_match` says when they are, for all cuts of the streams; `Attributable` is the condition. A `Sync` alone is
enough to break it, and so is a message the observer takes for too long.
-/

namespace Havuz.Trace

open Lib

/-! ## Frames -/

/-- The longest length the observer believes. -/
def maxObserved : ℕ := 16 * 1024 * 1024

/-- The loop of `FrameObserver::feed`: messages, and what stays buffered. A length that is not believed empties the
buffer. -/
def frames : ℕ → Bytes → List Message × Bytes
  | 0, buffered => ([], buffered)
  | n + 1, buffered =>
      if buffered.length < headerLen then ([], buffered)
      else if ¬ (4 ≤ declared buffered ∧ declared buffered ≤ maxObserved) then ([], [])
      else
        let frameLen := 1 + (declared buffered).toNat
        if buffered.length < frameLen then ([], buffered)
        else
          let (messages, rest) := frames n (buffered.drop frameLen)
          (⟨buffered.headD 0, (buffered.take frameLen).drop headerLen⟩ :: messages, rest)

/-- `FrameObserver::feed`. -/
def feed (buffered bytes : Bytes) : List Message × Bytes := frames (buffered ++ bytes).length (buffered ++ bytes)

/-- A message the observer believes the length of. -/
def Observable (m : Message) : Prop := m.body.length + 4 ≤ maxObserved

instance (m : Message) : Decidable (Observable m) := inferInstanceAs (Decidable (_ ≤ _))

/-- The beginning of such a message. -/
def Begins (p : Bytes) : Prop := ∃ m rest, Observable m ∧ rest ≠ [] ∧ m.encode = p ++ rest

theorem begins_nil : Begins [] := ⟨Message.sync, Message.sync.encode, by decide, by decide, rfl⟩

theorem Observable.fits {m : Message} (h : Observable m) : m.Fits := by
  rw [Observable, maxObserved] at h
  rw [Message.Fits]
  omega

theorem frames_begins {p : Bytes} (h : Begins p) (n : ℕ) : frames n p = ([], p) := by
  obtain ⟨m, rest, hm, hrest, hencode⟩ := h
  cases n with
  | zero => rfl
  | succ n =>
      rw [frames]
      by_cases hheader : p.length < headerLen
      · rw [if_pos hheader]
      · have hdeclared : declared p = m.body.length + 4 := by
          rw [← declared_append (by omega) rest, ← hencode, Message.declared_encode hm.fits]
        have hlength : p.length < headerLen + m.body.length := by
          have hpos := List.length_pos_of_ne_nil hrest
          rw [← m.length_encode, hencode, List.length_append]
          omega
        rw [Observable] at hm
        rw [headerLen] at hlength
        rw [if_neg hheader, hdeclared, if_neg (by omega), if_pos (by omega)]

theorem frames_encode {m : Message} (h : Observable m) (n : ℕ) (rest : Bytes) :
    frames (n + 1) (m.encode ++ rest) = (m :: (frames n rest).1, (frames n rest).2) := by
  have hheader : headerLen ≤ m.encode.length := by
    rw [m.length_encode]
    omega
  have hdeclared : declared (m.encode ++ rest) = m.body.length + 4 := by
    rw [declared_append hheader, Message.declared_encode h.fits]
  have hlen : 1 + ((m.body.length : ℤ) + 4).toNat = m.encode.length := by
    rw [m.length_encode, headerLen]
    omega
  rw [Observable] at h
  rw [frames, hdeclared, if_neg (by rw [List.length_append]; omega), if_neg (by omega)]
  dsimp only
  rw [hlen, if_neg (by rw [List.length_append]; omega), List.drop_left, List.take_left]
  rfl

theorem frames_flatMap {ms : List Message} (hms : ∀ m ∈ ms, Observable m) {p : Bytes} (hp : Begins p) {n : ℕ}
    (hn : ms.length ≤ n) : frames n (ms.flatMap Message.encode ++ p) = (ms, p) := by
  induction ms generalizing n with
  | nil => exact frames_begins hp n
  | cons m ms ih =>
      obtain ⟨hm, hrest⟩ := List.forall_mem_cons.mp hms
      rw [List.length_cons] at hn
      obtain ⟨k, rfl⟩ : ∃ k, n = k + 1 := ⟨n - 1, by omega⟩
      rw [List.flatMap_cons, List.append_assoc, frames_encode hm, ih hrest (by omega)]

theorem length_le_encoded (ms : List Message) : ms.length ≤ (ms.flatMap Message.encode).length := by
  induction ms with
  | nil => exact Nat.le_refl 0
  | cons m ms ih =>
      rw [List.flatMap_cons, List.length_append, m.length_encode, headerLen, List.length_cons]
      omega

/-- However a stream is cut, the messages are those that are complete. -/
theorem feed_cut {p p' bytes : Bytes} {ms : List Message} (hms : ∀ m ∈ ms, Observable m) (hp : Begins p')
    (hcut : p ++ bytes = ms.flatMap Message.encode ++ p') : feed p bytes = (ms, p') := by
  have hlength := length_le_encoded ms
  rw [feed, hcut, frames_flatMap hms hp (by rw [List.length_append]; omega)]

/-! ## Spans -/

/-- A span: its statement, and what it was offered. -/
structure Span where
  sql : Text
  seen : List Message := []
deriving DecidableEq, Repr

structure SessionTrace where
  clientFrames : Bytes := []
  backendFrames : Bytes := []
  /-- The oldest first. -/
  pending : List Span := []
  statements : Text → Option Text := fun _ => none
  extendedOpen : Bool := false
  /-- What the store has got, the oldest first. -/
  completed : List Span := []

/-- The first of the parts between the NULs. -/
def firstPart (body : Bytes) : Text := fromUtf8Lossy (body.takeWhile (· ≠ 0))

/-- The second one, if there is one. -/
def secondPart (body : Bytes) : Option Text :=
  if body.contains 0 then some (firstPart ((body.dropWhile (· ≠ 0)).drop 1)) else none

namespace SessionTrace

def start (s : SessionTrace) (sql : Text) : SessionTrace := { s with pending := s.pending ++ [{ sql }] }

/-- The body of the loop in `observe_client`. -/
def onClient (s : SessionTrace) (m : Message) : SessionTrace :=
  if m.tag = byte 'Q' then { s.start (firstPart m.body) with extendedOpen := false }
  else if m.tag = byte 'P' then
    match secondPart m.body with
    | none => s
    | some sql =>
        let s :=
          if firstPart m.body = [] then s
          else { s with statements := Function.update s.statements (firstPart m.body) (some sql) }
        let s := if s.extendedOpen then s else s.start sql
        { s with extendedOpen := true }
  else if m.tag = byte 'B' ∧ s.extendedOpen = false then
    let s :=
      match (secondPart m.body).bind s.statements with
      | none => s
      | some sql => s.start sql
    { s with extendedOpen := true }
  else if m.tag = byte 'S' then { s with extendedOpen := false }
  else s

/-- The body of the loop in `observe_backend`. -/
def onBackend (s : SessionTrace) (m : Message) : SessionTrace :=
  match s.pending with
  | [] => s
  | span :: rest =>
      let span := { span with seen := span.seen ++ [m] }
      if m.tag = byte 'Z' then { s with pending := rest, completed := s.completed ++ [span] }
      else { s with pending := span :: rest }

def observeClient (s : SessionTrace) (bytes : Bytes) : SessionTrace :=
  (feed s.clientFrames bytes).1.foldl onClient { s with clientFrames := (feed s.clientFrames bytes).2 }

def observeBackend (s : SessionTrace) (bytes : Bytes) : SessionTrace :=
  (feed s.backendFrames bytes).1.foldl onBackend { s with backendFrames := (feed s.backendFrames bytes).2 }

/-- The statement a message opens a span for: a simple query always, a `Parse` or a `Bind` of a named statement if no
extended exchange is open. -/
def opens (s : SessionTrace) (m : Message) : Option Text :=
  if m.tag = byte 'Q' then some (firstPart m.body)
  else if m.tag = byte 'P' then if s.extendedOpen then none else secondPart m.body
  else if m.tag = byte 'B' ∧ s.extendedOpen = false then (secondPart m.body).bind s.statements
  else none

theorem pending_onClient (s : SessionTrace) (m : Message) :
    (s.onClient m).pending = s.pending ++ (s.opens m).toList.map fun sql => { sql := sql } := by
  have hnone : s.pending = s.pending ++ (none : Option Text).toList.map fun sql => { sql := sql } :=
    (List.append_nil _).symm
  unfold onClient opens
  by_cases hQ : m.tag = byte 'Q'
  · rw [if_pos hQ, if_pos hQ]
    rfl
  · rw [if_neg hQ, if_neg hQ]
    by_cases hP : m.tag = byte 'P'
    · rw [if_pos hP, if_pos hP]
      cases secondPart m.body with
      | none =>
          rw [ite_self]
          exact hnone
      | some sql =>
          -- The name changes what is remembered, not what is pending.
          by_cases hname : firstPart m.body = [] <;> cases hopen : s.extendedOpen <;> simp [hname, hopen, start]
    · rw [if_neg hP, if_neg hP]
      by_cases hB : m.tag = byte 'B' ∧ s.extendedOpen = false
      · rw [if_pos hB, if_pos hB]
        cases (secondPart m.body).bind s.statements with
        | none => exact hnone
        | some sql => rfl
      · rw [if_neg hB, if_neg hB]
        split <;> exact hnone

theorem completed_onClient (s : SessionTrace) (m : Message) : (s.onClient m).completed = s.completed := by
  unfold onClient
  split
  · rfl
  · split
    · split
      · rfl
      · dsimp only
        split <;> split <;> rfl
    · split
      · dsimp only
        split <;> rfl
      · split <;> rfl

/-! ### What is buffered -/

/-- The same spans, with other bytes buffered. -/
def withFrames (s : SessionTrace) (p q : Bytes) : SessionTrace := { s with clientFrames := p, backendFrames := q }

theorem opens_withFrames (s : SessionTrace) (p q : Bytes) (m : Message) : (s.withFrames p q).opens m = s.opens m := rfl

theorem onClient_withFrames (s : SessionTrace) (p q : Bytes) (m : Message) :
    (s.withFrames p q).onClient m = (s.onClient m).withFrames p q := by
  have hopen : (s.withFrames p q).extendedOpen = s.extendedOpen := rfl
  have hstatements : (s.withFrames p q).statements = s.statements := rfl
  unfold onClient
  rw [hopen, hstatements]
  by_cases hQ : m.tag = byte 'Q'
  · rw [if_pos hQ, if_pos hQ]
    rfl
  · rw [if_neg hQ, if_neg hQ]
    by_cases hP : m.tag = byte 'P'
    · rw [if_pos hP, if_pos hP]
      cases secondPart m.body with
      | none => rfl
      | some sql =>
          by_cases hname : firstPart m.body = [] <;> cases hext : s.extendedOpen <;>
            simp [hname, hext, withFrames, start]
    · rw [if_neg hP, if_neg hP]
      by_cases hB : m.tag = byte 'B' ∧ s.extendedOpen = false
      · rw [if_pos hB, if_pos hB]
        cases (secondPart m.body).bind s.statements <;> rfl
      · rw [if_neg hB, if_neg hB]
        split <;> rfl

theorem onBackend_withFrames (s : SessionTrace) (p q : Bytes) (m : Message) :
    (s.withFrames p q).onBackend m = (s.onBackend m).withFrames p q := by
  unfold onBackend
  show (match s.pending with
    | [] => _
    | span :: rest => _) = _
  cases s.pending with
  | nil => rfl
  | cons span rest =>
      dsimp only
      split <;> rfl

end SessionTrace

/-! ## Exchanges -/

/-- What the client sends up to the message that PostgreSQL answers with a `ReadyForQuery`, and what comes back. -/
structure Exchange where
  begun : Bool := false
  /-- The statement of the span that one of its messages opened. -/
  opened : Option Text := none
  replies : List Message := []
deriving DecidableEq, Repr

/-- The span an exchange should have. -/
def Exchange.span (e : Exchange) : Option Span := e.opened.map fun sql => { sql := sql, seen := e.replies }

/-- The replies are those up to the exchange's own `ReadyForQuery`. -/
def Exchange.Answered (e : Exchange) : Prop :=
  ∃ replies z, e.replies = replies ++ [z] ∧ z.tag = byte 'Z' ∧ ∀ m ∈ replies, m.tag ≠ byte 'Z'

structure Exchanges where
  answered : List Exchange := []
  /-- Sent in full, the oldest first. -/
  waiting : List Exchange := []
  /-- The one that is being sent. -/
  current : Exchange := {}
deriving DecidableEq, Repr

namespace Exchanges

/-- The client sends a message that may open a span, and that ends the exchange if PostgreSQL answers it with a
`ReadyForQuery`. -/
def send (x : Exchanges) (opened : Option Text) (ends : Bool) : Exchanges :=
  let current := { x.current with begun := true, opened := x.current.opened.or opened }
  if ends then { x with waiting := x.waiting ++ [current], current := {} } else { x with current }

/-- PostgreSQL answers the exchanges in their order. What comes while there is none belongs to none. -/
def reply (x : Exchanges) (m : Message) : Exchanges :=
  match x.waiting with
  | e :: waiting =>
      let e := { e with replies := e.replies ++ [m] }
      if m.tag = byte 'Z' then { x with answered := x.answered ++ [e], waiting } else { x with waiting := e :: waiting }
  | [] =>
      if x.current.begun then { x with current := { x.current with replies := x.current.replies ++ [m] } } else x

/-- The exchanges without an answer. -/
def unanswered (x : Exchanges) : List Exchange := x.waiting ++ [x.current]

/-- The exchange the next reply belongs to. -/
def target (x : Exchanges) : Option Exchange :=
  match x.waiting with
  | e :: _ => some e
  | [] => if x.current.begun then some x.current else none

end Exchanges

inductive Event where
  | client (m : Message) (ends : Bool)
  | backend (m : Message)
deriving DecidableEq, Repr

/-- The observer, next to what it observes. -/
structure System where
  trace : SessionTrace := {}
  exchanges : Exchanges := {}

namespace System

def step : System → Event → System
  | sys, .client m ends => ⟨sys.trace.onClient m, sys.exchanges.send (sys.trace.opens m) ends⟩
  | sys, .backend m => ⟨sys.trace.onBackend m, sys.exchanges.reply m⟩

/-- Replies follow their requests: a `ReadyForQuery` answers an exchange that was sent in full. -/
def Follows (sys : System) : Event → Prop
  | .client _ _ => True
  | .backend m => m.tag = byte 'Z' → sys.exchanges.waiting ≠ []

/-- The order can tell what a message belongs to: a span is opened once in an exchange and in front of all of its replies,
and no exchange without a span is answered while one behind it has one. -/
def Attributable (sys : System) : Event → Prop
  | .client m _ =>
      sys.trace.opens m = none ∨ sys.exchanges.current.opened = none ∧ sys.exchanges.current.replies = []
  | .backend _ =>
      ∀ e ∈ sys.exchanges.target, e.opened ≠ none ∨ ∀ e' ∈ sys.exchanges.unanswered, e'.opened = none

instance (sys : System) : ∀ e, Decidable (sys.Follows e)
  | .client _ _ => .isTrue trivial
  | .backend m => inferInstanceAs (Decidable (m.tag = byte 'Z' → sys.exchanges.waiting ≠ []))

instance (sys : System) : ∀ e, Decidable (sys.Attributable e)
  | .client m _ => inferInstanceAs
      (Decidable (sys.trace.opens m = none ∨ sys.exchanges.current.opened = none ∧ sys.exchanges.current.replies = []))
  | .backend _ => inferInstanceAs
      (Decidable (∀ e ∈ sys.exchanges.target, e.opened ≠ none ∨ ∀ e' ∈ sys.exchanges.unanswered, e'.opened = none))

/-- The spans are those of the exchanges that opened one, each with the replies of its own. -/
structure Matches (sys : System) : Prop where
  completed : sys.trace.completed = sys.exchanges.answered.filterMap Exchange.span
  pending : sys.trace.pending = sys.exchanges.unanswered.filterMap Exchange.span

/-- The `ReadyForQuery` of an exchange is its last reply, and an exchange that has not begun has no span. -/
structure Closed (x : Exchanges) : Prop where
  answered : ∀ e ∈ x.answered, e.Answered
  unanswered : ∀ e ∈ x.unanswered, ∀ m ∈ e.replies, m.tag ≠ byte 'Z'
  fresh : x.current.begun = false → x.current.opened = none

theorem Matches.init : Matches {} := ⟨rfl, rfl⟩

theorem Closed.init : Closed {} where
  answered := List.forall_mem_nil _
  unanswered := by
    intro e he
    obtain rfl := List.mem_singleton.mp he
    exact List.forall_mem_nil _
  fresh _ := rfl

/-! ### Steps -/

variable {sys : System}

theorem unanswered_send (x : Exchanges) (opened : Option Text) (ends : Bool) :
    (x.send opened ends).unanswered.filterMap Exchange.span =
      x.waiting.filterMap Exchange.span ++
        ({ x.current with begun := true, opened := x.current.opened.or opened } : Exchange).span.toList := by
  have hempty : ({} : Exchange).span = none := rfl
  cases ends with
  | false =>
      show (x.waiting ++ [_]).filterMap Exchange.span = _
      rw [List.filterMap_append]
      congr 1
  | true =>
      show ((x.waiting ++ [_]) ++ [({} : Exchange)]).filterMap Exchange.span = _
      rw [List.filterMap_append, List.filterMap_append]
      cases h : ({ x.current with begun := true, opened := x.current.opened.or opened } : Exchange).span <;> simp [h, hempty]

theorem Matches.client (h : Matches sys) {m : Message} {ends : Bool} (hok : Attributable sys (.client m ends)) :
    Matches (step sys (.client m ends)) where
  completed := by
    show (sys.trace.onClient m).completed = (sys.exchanges.send _ ends).answered.filterMap Exchange.span
    rw [SessionTrace.completed_onClient, h.completed]
    cases ends <;> rfl
  pending := by
    show (sys.trace.onClient m).pending = _
    have hpending := h.pending
    rw [Exchanges.unanswered, List.filterMap_append] at hpending
    rw [SessionTrace.pending_onClient, hpending, step, unanswered_send, List.append_assoc]
    congr 1
    rcases hok with hnone | ⟨hopened, hreplies⟩
    · rw [hnone, Option.or_none]
      cases hcurrent : sys.exchanges.current.opened <;> simp [Exchange.span, hcurrent]
    · rw [hopened, Option.none_or]
      cases hopens : sys.trace.opens m <;> simp [Exchange.span, hopened, hreplies]

/-- A reply to an exchange without a span is offered to none. -/
theorem onBackend_of_pending_nil {s : SessionTrace} (h : s.pending = []) (m : Message) : s.onBackend m = s := by
  rw [SessionTrace.onBackend, h]

theorem onBackend_of_pending_cons {s : SessionTrace} {span : Span} {rest : List Span} (h : s.pending = span :: rest)
    (m : Message) :
    (s.onBackend m).pending =
        (if m.tag = byte 'Z' then rest else { span with seen := span.seen ++ [m] } :: rest) ∧
      (s.onBackend m).completed =
        if m.tag = byte 'Z' then s.completed ++ [{ span with seen := span.seen ++ [m] }] else s.completed := by
  rw [SessionTrace.onBackend, h]
  dsimp only
  split
  · exact ⟨rfl, rfl⟩
  · exact ⟨rfl, rfl⟩

theorem filterMap_span_of_none {es : List Exchange} (h : ∀ e ∈ es, e.opened = none) : es.filterMap Exchange.span = [] := by
  rw [List.filterMap_eq_nil_iff]
  intro e he
  rw [Exchange.span, h e he]
  rfl

/-- The reply of an exchange that has a span. -/
theorem Matches.backend_opened (h : Matches sys) {m : Message} {e : Exchange} {waiting : List Exchange} {sql : Text}
    (hwaiting : sys.exchanges.waiting = e :: waiting) (hsql : e.opened = some sql) :
    Matches (step sys (.backend m)) := by
  have hspan : e.span = some ⟨sql, e.replies⟩ := by rw [Exchange.span, hsql]; rfl
  have hspan' : ({ e with replies := e.replies ++ [m] } : Exchange).span = some ⟨sql, e.replies ++ [m]⟩ := by
    rw [Exchange.span, hsql]
    rfl
  have hpending := h.pending
  rw [Exchanges.unanswered, hwaiting, List.cons_append, List.filterMap_cons_some hspan] at hpending
  obtain ⟨hp, hc⟩ := onBackend_of_pending_cons hpending m
  by_cases hz : m.tag = byte 'Z'
  · rw [if_pos hz] at hp hc
    have hreply : sys.exchanges.reply m = { sys.exchanges with
        answered := sys.exchanges.answered ++ [{ e with replies := e.replies ++ [m] }], waiting } := by
      rw [Exchanges.reply, hwaiting]
      exact if_pos hz
    refine ⟨?_, ?_⟩
    · rw [step, hreply]
      dsimp only
      rw [hc, h.completed, List.filterMap_append, List.filterMap_cons_some hspan', List.filterMap_nil]
    · rw [step, hreply]
      exact hp
  · rw [if_neg hz] at hp hc
    have hreply : sys.exchanges.reply m = { sys.exchanges with
        waiting := { e with replies := e.replies ++ [m] } :: waiting } := by
      rw [Exchanges.reply, hwaiting]
      exact if_neg hz
    refine ⟨?_, ?_⟩
    · rw [step, hreply]
      exact hc.trans h.completed
    · rw [step, hreply, Exchanges.unanswered, List.cons_append, List.filterMap_cons_some hspan']
      exact hp

/-- The reply of an exchange without a span, when none is open. -/
theorem Matches.backend_unopened (h : Matches sys) {m : Message}
    (hnone : ∀ e ∈ sys.exchanges.unanswered, e.opened = none) : Matches (step sys (.backend m)) := by
  have hpending : sys.trace.pending = [] := h.pending.trans (filterMap_span_of_none hnone)
  have hcurrent : sys.exchanges.current.opened = none := hnone _ (List.mem_append_right _ (List.mem_singleton_self _))
  have htrace : (step sys (.backend m)).trace = sys.trace := onBackend_of_pending_nil hpending m
  -- Whatever the reply is added to, no exchange without an answer has a span then.
  have hstep : (sys.exchanges.reply m).answered.filterMap Exchange.span =
      sys.exchanges.answered.filterMap Exchange.span ∧ ∀ e ∈ (sys.exchanges.reply m).unanswered, e.opened = none := by
    rw [Exchanges.reply]
    cases hwaiting : sys.exchanges.waiting with
    | nil =>
        dsimp only
        split
        · refine ⟨rfl, ?_⟩
          intro e he
          rw [Exchanges.unanswered] at he
          obtain rfl := List.mem_singleton.mp he
          exact hcurrent
        · exact ⟨rfl, hnone⟩
    | cons e waiting =>
        have he : e.opened = none := hnone e (by rw [Exchanges.unanswered, hwaiting]; exact List.mem_cons_self)
        have hrest : ∀ e' ∈ waiting ++ [sys.exchanges.current], e'.opened = none := by
          intro e' he'
          refine hnone e' ?_
          rw [Exchanges.unanswered, hwaiting]
          exact List.mem_cons_of_mem e he'
        dsimp only
        split
        · refine ⟨?_, hrest⟩
          have hspan : ({ e with replies := e.replies ++ [m] } : Exchange).span = none := by rw [Exchange.span, he]; rfl
          rw [List.filterMap_append, List.filterMap_cons_none hspan, List.filterMap_nil, List.append_nil]
        · exact ⟨rfl, List.forall_mem_cons.mpr ⟨he, hrest⟩⟩
  refine ⟨?_, ?_⟩
  · rw [htrace, h.completed]
    exact hstep.1.symm
  · rw [htrace, hpending]
    exact (filterMap_span_of_none hstep.2).symm

/-- The reply of the exchange that is still being sent. -/
theorem Matches.backend_current (h : Matches sys) {m : Message} {sql : Text} (hwaiting : sys.exchanges.waiting = [])
    (hsql : sys.exchanges.current.opened = some sql) (hbegun : sys.exchanges.current.begun = true)
    (hz : m.tag ≠ byte 'Z') : Matches (step sys (.backend m)) := by
  have hspan : sys.exchanges.current.span = some ⟨sql, sys.exchanges.current.replies⟩ := by
    rw [Exchange.span, hsql]
    rfl
  have hpending := h.pending
  rw [Exchanges.unanswered, hwaiting, List.nil_append, List.filterMap_cons_some hspan, List.filterMap_nil] at hpending
  obtain ⟨hp, hc⟩ := onBackend_of_pending_cons hpending m
  rw [if_neg hz] at hp hc
  have hreply : sys.exchanges.reply m = { sys.exchanges with
      current := { sys.exchanges.current with replies := sys.exchanges.current.replies ++ [m] } } := by
    unfold Exchanges.reply
    split
    · next hcons =>
        rw [hwaiting] at hcons
        cases hcons
    · exact if_pos hbegun
  refine ⟨?_, ?_⟩
  · rw [step, hreply]
    exact hc.trans h.completed
  · rw [step, hreply, Exchanges.unanswered]
    dsimp only
    rw [hp, hwaiting]
    simp [Exchange.span, hsql]

theorem Matches.backend (h : Matches sys) (hclosed : Closed sys.exchanges) {m : Message}
    (hfollows : Follows sys (.backend m)) (hok : Attributable sys (.backend m)) : Matches (step sys (.backend m)) := by
  cases hwaiting : sys.exchanges.waiting with
  | cons e waiting =>
      have htarget : e ∈ sys.exchanges.target := by
        rw [Exchanges.target, hwaiting]
        exact rfl
      rcases hok e htarget with hopened | hnone
      · obtain ⟨sql, hsql⟩ := Option.ne_none_iff_exists'.mp hopened
        exact h.backend_opened hwaiting hsql
      · exact h.backend_unopened hnone
  | nil =>
      have hz : m.tag ≠ byte 'Z' := fun hz => hfollows hz hwaiting
      cases hbegun : sys.exchanges.current.begun with
      | true =>
          have htarget : sys.exchanges.current ∈ sys.exchanges.target := by
            rw [Exchanges.target, hwaiting]
            exact if_pos hbegun
          rcases hok _ htarget with hopened | hnone
          · obtain ⟨sql, hsql⟩ := Option.ne_none_iff_exists'.mp hopened
            exact h.backend_current hwaiting hsql hbegun hz
          · exact h.backend_unopened hnone
      | false =>
          have hnone : ∀ e ∈ sys.exchanges.unanswered, e.opened = none := by
            intro e he
            rw [Exchanges.unanswered, hwaiting] at he
            obtain rfl := List.mem_singleton.mp he
            exact hclosed.fresh hbegun
          exact h.backend_unopened hnone

theorem Closed.send {x : Exchanges} (h : Closed x) (opened : Option Text) (ends : Bool) : Closed (x.send opened ends) := by
  have hwaiting : ∀ e ∈ x.waiting, ∀ m ∈ e.replies, m.tag ≠ byte 'Z' := fun e he =>
    h.unanswered e (List.mem_append_left _ he)
  have hcurrent : ∀ m ∈ x.current.replies, m.tag ≠ byte 'Z' :=
    h.unanswered _ (List.mem_append_right _ (List.mem_singleton_self _))
  have hsent : ∀ e ∈ x.waiting ++ [{ x.current with begun := true, opened := x.current.opened.or opened }],
      ∀ m ∈ e.replies, m.tag ≠ byte 'Z' := by
    intro e he
    rcases List.mem_append.mp he with he | he
    · exact hwaiting e he
    · obtain rfl := List.mem_singleton.mp he
      exact hcurrent
  cases ends with
  | false => exact ⟨h.answered, hsent, nofun⟩
  | true =>
      refine ⟨h.answered, ?_, fun _ => rfl⟩
      intro e he
      rcases List.mem_append.mp he with he | he
      · exact hsent e he
      · obtain rfl := List.mem_singleton.mp he
        exact List.forall_mem_nil _

theorem Closed.reply {x : Exchanges} (h : Closed x) {m : Message} (hfollows : m.tag = byte 'Z' → x.waiting ≠ []) :
    Closed (x.reply m) := by
  have hcurrent : ∀ m ∈ x.current.replies, m.tag ≠ byte 'Z' :=
    h.unanswered _ (List.mem_append_right _ (List.mem_singleton_self _))
  rw [Exchanges.reply]
  cases hwaiting : x.waiting with
  | nil =>
      dsimp only
      split
      · refine ⟨h.answered, ?_, fun hbegun => h.fresh hbegun⟩
        intro e he
        rw [Exchanges.unanswered] at he
        obtain rfl := List.mem_singleton.mp he
        intro m' hm'
        rcases List.mem_append.mp hm' with hm' | hm'
        · exact hcurrent m' hm'
        · obtain rfl := List.mem_singleton.mp hm'
          exact fun hz => hfollows hz hwaiting
      · exact h
  | cons e waiting =>
      have he : ∀ m ∈ e.replies, m.tag ≠ byte 'Z' :=
        h.unanswered e (by rw [Exchanges.unanswered, hwaiting]; exact List.mem_cons_self)
      have hrest : ∀ e' ∈ waiting ++ [x.current], ∀ m ∈ e'.replies, m.tag ≠ byte 'Z' := by
        intro e' he'
        refine h.unanswered e' ?_
        rw [Exchanges.unanswered, hwaiting]
        exact List.mem_cons_of_mem e he'
      dsimp only
      split
      · next hz =>
          refine ⟨?_, hrest, h.fresh⟩
          intro e' he'
          rcases List.mem_append.mp he' with he' | he'
          · exact h.answered e' he'
          · obtain rfl := List.mem_singleton.mp he'
            exact ⟨e.replies, m, rfl, hz, he⟩
      · next hz =>
          refine ⟨h.answered, List.forall_mem_cons.mpr ⟨?_, hrest⟩, h.fresh⟩
          intro m' hm'
          rcases List.mem_append.mp hm' with hm' | hm'
          · exact he m' hm'
          · obtain rfl := List.mem_singleton.mp hm'
            exact hz

/-- One step of a run in which replies follow their requests and the order tells what they belong to. -/
theorem step_matches (h : Matches sys ∧ Closed sys.exchanges) {e : Event} (hok : Follows sys e ∧ Attributable sys e) :
    Matches (step sys e) ∧ Closed (step sys e).exchanges := by
  cases e with
  | client m ends => exact ⟨h.1.client hok.2, h.2.send _ ends⟩
  | backend m => exact ⟨h.1.backend h.2 hok.1 hok.2, h.2.reply hok.1⟩

theorem run_matches {events : List Event} (hok : Along step (fun sys e => Follows sys e ∧ Attributable sys e) {} events) :
    Matches (run step {} events) ∧ Closed (run step {} events).exchanges :=
  hok.invariant (fun _ _ h hok => step_matches h hok) ⟨Matches.init, Closed.init⟩

end System

/-! ## Chunks -/

/-- A chunk as it is read, and the messages it completes. -/
inductive Chunk where
  | client (bytes : Bytes) (sent : List (Message × Bool))
  | backend (bytes : Bytes) (replies : List Message)
deriving DecidableEq, Repr

namespace Chunk

def events : Chunk → List Event
  | client _ sent => sent.map fun e => .client e.1 e.2
  | backend _ replies => replies.map .backend

/-- The chunks are a cut of two streams, of which `p` and `q` are left over. -/
def Cut : Bytes → Bytes → List Chunk → Prop
  | _, _, [] => True
  | p, q, client bytes sent :: chunks =>
      ∃ p', p ++ bytes = (sent.map Prod.fst).flatMap Message.encode ++ p' ∧ (∀ e ∈ sent, Observable e.1) ∧ Begins p' ∧
        Cut p' q chunks
  | p, q, backend bytes replies :: chunks =>
      ∃ q', q ++ bytes = replies.flatMap Message.encode ++ q' ∧ (∀ m ∈ replies, Observable m) ∧ Begins q' ∧ Cut p q' chunks

end Chunk

namespace SessionTrace

def observe (s : SessionTrace) : Chunk → SessionTrace
  | .client bytes _ => s.observeClient bytes
  | .backend bytes _ => s.observeBackend bytes

theorem foldl_onClient (s : SessionTrace) (p q : Bytes) (x : Exchanges) (sent : List (Message × Bool)) :
    (sent.map Prod.fst).foldl onClient (s.withFrames p q) =
      (run System.step ⟨s, x⟩ (sent.map fun e => .client e.1 e.2)).trace.withFrames p q := by
  induction sent generalizing s x with
  | nil => rfl
  | cons e sent ih =>
      rw [List.map_cons, List.foldl_cons, onClient_withFrames, List.map_cons, run_cons]
      exact ih _ _

theorem foldl_onBackend (s : SessionTrace) (p q : Bytes) (x : Exchanges) (replies : List Message) :
    replies.foldl onBackend (s.withFrames p q) =
      (run System.step ⟨s, x⟩ (replies.map .backend)).trace.withFrames p q := by
  induction replies generalizing s x with
  | nil => rfl
  | cons m replies ih =>
      rw [List.foldl_cons, onBackend_withFrames, List.map_cons, run_cons]
      exact ih _ _

/-- However the streams are cut, the spans are those of the messages one by one. -/
theorem observe_cut {p q : Bytes} {chunks : List Chunk} (hcut : Chunk.Cut p q chunks) (s : SessionTrace) (x : Exchanges) :
    ∃ p' q', chunks.foldl observe (s.withFrames p q) =
      (run System.step ⟨s, x⟩ (chunks.flatMap Chunk.events)).trace.withFrames p' q' := by
  induction chunks generalizing p q s x with
  | nil => exact ⟨p, q, rfl⟩
  | cons chunk chunks ih =>
      rw [List.foldl_cons, List.flatMap_cons, run_append]
      cases chunk with
      | client bytes sent =>
          obtain ⟨p', hbytes, hsent, hp', hcut⟩ := hcut
          have hall : ∀ m ∈ sent.map Prod.fst, Observable m := by
            intro m hm
            obtain ⟨e, he, rfl⟩ := List.mem_map.mp hm
            exact hsent e he
          have hfeed := feed_cut hall hp' hbytes
          have hobserve : (s.withFrames p q).observeClient bytes =
              (sent.map Prod.fst).foldl onClient (s.withFrames p' q) := by
            show (feed p bytes).1.foldl onClient (s.withFrames (feed p bytes).2 q) = _
            rw [hfeed]
          show ∃ p' q', chunks.foldl observe ((s.withFrames p q).observeClient bytes) = _
          rw [hobserve, foldl_onClient s p' q x]
          exact ih hcut _ _
      | backend bytes replies =>
          obtain ⟨q', hbytes, hreplies, hq', hcut⟩ := hcut
          have hfeed := feed_cut hreplies hq' hbytes
          have hobserve : (s.withFrames p q).observeBackend bytes = replies.foldl onBackend (s.withFrames p q') := by
            show (feed q bytes).1.foldl onBackend (s.withFrames p (feed q bytes).2) = _
            rw [hfeed]
          show ∃ p' q', chunks.foldl observe ((s.withFrames p q).observeBackend bytes) = _
          rw [hobserve, foldl_onBackend s p q' x]
          exact ih hcut _ _

/-- However the streams of a session are cut and however they are interleaved: while the order tells what a reply belongs to,
every completed span is that of an answered exchange, with all of its replies to its own `ReadyForQuery`, and every open one
that of an exchange without an answer, with the replies so far. -/
theorem spans_match {chunks : List Chunk} (hcut : Chunk.Cut [] [] chunks)
    (hok : Along System.step (fun sys e => sys.Follows e ∧ sys.Attributable e) {} (chunks.flatMap Chunk.events)) :
    System.Matches ⟨chunks.foldl observe {}, (run System.step {} (chunks.flatMap Chunk.events)).exchanges⟩ ∧
      ∀ e ∈ (run System.step {} (chunks.flatMap Chunk.events)).exchanges.answered, e.Answered := by
  obtain ⟨hmatches, hclosed⟩ := System.run_matches hok
  obtain ⟨p, q, hrun⟩ := observe_cut hcut {} {}
  have hstart : chunks.foldl observe {} = (run System.step {} (chunks.flatMap Chunk.events)).trace.withFrames p q := hrun
  rw [hstart]
  exact ⟨⟨hmatches.completed, hmatches.pending⟩, hclosed.answered⟩

/-- Two queries in one chunk and a half, and their answers. -/
def twoQueries : List Chunk :=
  [.client ((Message.query ['a']).encode ++ [byte 'Q', 0]) [(Message.query ['a'], true)],
    .client [0, 0, 6, byte 'b', 0] [(Message.query ['b'], true)],
    .backend ((Message.readyForQuery .idle).encode ++ (Message.readyForQuery .idle).encode)
      [Message.readyForQuery .idle, Message.readyForQuery .idle]]

theorem cut_twoQueries : Chunk.Cut [] [] twoQueries := by
  refine ⟨[byte 'Q', 0], by decide, by decide, ?_, [], by decide, by decide, begins_nil, [], by decide, by decide, begins_nil,
    trivial⟩
  exact ⟨Message.query ['b'], [0, 0, 6, byte 'b', 0], by decide, by decide, by decide⟩

theorem spans_match_twoQueries :
    (twoQueries.foldl observe {}).completed =
        [⟨['a'], [Message.readyForQuery .idle]⟩, ⟨['b'], [Message.readyForQuery .idle]⟩] ∧
      System.Matches ⟨twoQueries.foldl observe {}, (run System.step {} (twoQueries.flatMap Chunk.events)).exchanges⟩ ∧
      ∀ e ∈ (run System.step {} (twoQueries.flatMap Chunk.events)).exchanges.answered, e.Answered :=
  ⟨by decide +kernel, spans_match cut_twoQueries (by decide +kernel)⟩

/-- A `Sync` that opens no span, and a query behind it. -/
def bareSync : List Chunk :=
  [.client (Message.sync.encode ++ (Message.query ['a']).encode) [(Message.sync, true), (Message.query ['a'], true)],
    .backend (Message.readyForQuery .idle).encode [Message.readyForQuery .idle]]

/-- The answer to the `Sync` completes the span of the query, which PostgreSQL has not answered. Of a message of more than
16 MiB the header is thrown away, and its body is taken for messages. -/
theorem not_spans_match :
    Chunk.Cut [] [] bareSync ∧ Along System.step System.Follows {} (bareSync.flatMap Chunk.events) ∧
      ¬ System.Matches ⟨bareSync.foldl observe {}, (run System.step {} (bareSync.flatMap Chunk.events)).exchanges⟩ ∧
      (bareSync.foldl observe {}).completed = [⟨['a'], [Message.readyForQuery .idle]⟩] ∧
      feed [] (byte 'd' :: i32Bytes (maxObserved + 1)) = ([], []) := by
  refine ⟨⟨[], by decide, by decide, begins_nil, [], by decide, by decide, begins_nil, trivial⟩, by decide +kernel, ?_,
    by decide +kernel, by decide +kernel⟩
  intro h
  have hcompleted := h.completed
  revert hcompleted
  decide +kernel

end SessionTrace

end Havuz.Trace
