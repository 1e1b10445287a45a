import Havuz.Jdbc.Turn

/-!
# What a session may give away

A session gives its connection back only in certain states of its flow. If a property of the connection holds
in these states, after every request that is made, then every connection it has given back has it
(`World.Guards.step`).
-/

namespace Havuz.Jdbc

open Lib

variable {s s' s₁ : Session} {luck : Luck} {m : Frontend} {request : Request} {w : World} {e : Event}

/-- The session may still share its connection. -/
def mayShare (flow : SessionState) : Bool := flow.mode.multiplexes && flow.pin.isNone && !flow.broken

/-- A text that is run now reaches the database, and its answer the session. -/
def Session.reaches (s : Session) (luck : Luck) : Bool :=
  luck.link = .answered && s.borrows luck && !s.conn.closed && calm 1 luck.throws

theorem mayShare_iff {flow : SessionState} :
    mayShare flow = true ↔ flow.mode.multiplexes = true ∧ flow.pin = none ∧ flow.broken = false := by
  simp [mayShare, and_assoc]

theorem releasable_iff {flow : SessionState} :
    flow.isReleasable = true ↔ mayShare flow = true ∧ flow.inTransaction = false := by
  rw [SessionState.isReleasable_iff, mayShare_iff]
  cases flow.mode <;> simp [PoolMode.multiplexes] <;> tauto

theorem Session.reaches_of {c : Connection} (hlink : luck.link = .answered) (hborrows : s.borrows luck = true)
    (hreached : Reached luck (s.jvm luck) c) : s.reaches luck = true := by
  have hopen : s.conn.closed = false := hreached.opened
  have hcreated : calm 1 luck.throws = true := hreached.created
  simp only [reaches, hlink, hborrows, hopen, hcreated, decide_true, Bool.not_false, Bool.and_self]

theorem Session.inTransaction_observe (sql : Text) (tx : Bool) (s : Session) :
    (s.observe sql tx).flow.inTransaction = tx := by
  unfold observe
  cases tx <;> rfl

theorem TransactionControl.plain_request (c : TransactionControl) : c.request.plain = true := by
  cases c <;> rfl

/-! ## One session -/

/-- States of the flow in which a connection may be given back, but not once it is not known any more. -/
structure Gate (gate : SessionState → Bool) : Prop where
  releasable : ∀ flow : SessionState, flow.isReleasable = true → gate flow = true
  broken : ∀ flow : SessionState, gate flow = true → flow.broken = false

section Guarded

variable {gate : SessionState → Bool} {P : Connection → Prop}

/-- What the session has given back has `P`, and so has what it may give back now. -/
structure Guarded (gate : SessionState → Bool) (P : Connection → Prop) (s : Session) : Prop where
  handed : ∀ c ∈ s.handed, P c
  held : gate s.flow = true → P s.conn

theorem Guarded.alike (h : Guarded gate P s) (halike : Alike s s') : Guarded gate P s' where
  handed := by
    rw [halike.handed]
    exact h.handed
  held := by
    rw [halike.flow, halike.sameConn.conn]
    exact h.held

theorem Guarded.releaseIfIdle (hgate : Gate gate) (hfresh : P {}) (h : Guarded gate P s) :
    Guarded gate P s.releaseIfIdle := by
  unfold Session.releaseIfIdle
  split
  case h_1 b hheld =>
    split
    case isTrue hrel =>
      have hconn := h.held (hgate.releasable s.flow hrel)
      rw [Session.conn, hheld] at hconn
      refine ⟨?_, fun _ => hfresh⟩
      intro c hc
      obtain hc | hc := List.mem_append.mp hc
      · exact h.handed c hc
      · rw [List.mem_singleton.mp hc]
        exact hconn
    case isFalse => exact h
  case h_2 => exact h

/-- A request is in order that leaves `P` where the connection may be given back, by its answer or without. -/
theorem Guarded.made {fold : Answer → Session → Session} (hgate : Gate gate) (h : Guarded gate P s)
    (hmade : Made luck request fold s s')
    (hfold : ∀ answer s₁, (fold answer s₁).handed = s₁.handed ∧ (fold answer s₁).conn = s₁.conn)
    (hanswered : ∀ answer j s₁, luck.link = .answered → s.borrows luck = true →
      handle luck request (s.jvm luck) = .ok answer j → Alike (s.through j) s₁ →
      gate (fold answer s₁).flow = true → P j.conn)
    (hrefused : ∀ e j, luck.link = .answered → s.borrows luck = true →
      handle luck request (s.jvm luck) = .error e j → gate s.flow = true → P j.conn) : Guarded gate P s' := by
  cases hmade with
  | exhausted => exact h
  | @answered answer s₁ hborrows hcalled =>
      cases hcalled with
      | answered hlink hj halike =>
          rw [Session.jvm_borrow] at hj
          rw [Session.through_borrow] at halike
          refine ⟨?_, fun hopen => ?_⟩
          · rw [(hfold answer s₁).1, halike.handed]
            exact h.handed
          · rw [(hfold answer s₁).2, halike.sameConn.conn]
            exact hanswered answer _ s₁ hlink hborrows hj halike hopen
  | @failed _ s₁ hborrows hcalled =>
      cases hcalled with
      | refused hlink hj halike =>
          rw [Session.jvm_borrow] at hj
          rw [Session.through_borrow] at halike
          have hthrough : Guarded gate P (s.through _) := ⟨h.handed, hrefused _ _ hlink hborrows hj⟩
          exact hthrough.alike halike
      | @lost performed fault _ hlink halike =>
          -- the session does not know the connection any more
          have hhanded : s₁.handed = s.handed := by
            rw [halike.handed]
            cases performed with
            | true => exact s.borrow_handed
            | false => exact s.borrow_handed
          refine ⟨?_, fun hopen => ?_⟩
          · intro c hc
            exact h.handed c (hhanded ▸ hc)
          · cases hgate.broken _ hopen

theorem Guarded.turn (hgate : Gate gate) (hfresh : P {}) (hturn : Turn luck m s s')
    (hasks : ∀ s₁, Asks luck m s s₁ → Guarded gate P s₁) : Guarded gate P s' := by
  obtain ⟨s₁, hs₁, halike | halike⟩ := hturn
  · exact (hasks s₁ hs₁).alike halike
  · exact ((hasks s₁ hs₁).releaseIfIdle hgate hfresh).alike halike

theorem Guarded.closeHeld (commits : Bool) (hclose : ∀ c : Connection, P c →
      P { c with tx := none, block := false, closed := true }) (h : Guarded gate P s) :
    Guarded gate P (s.closeHeld commits) := by
  unfold Session.closeHeld
  split
  · exact h
  case h_2 b hheld =>
    refine ⟨h.handed, fun hopen => ?_⟩
    have hconn := h.held hopen
    rw [Session.conn, hheld] at hconn
    exact hclose b.conn hconn

theorem guarded_opened (hgate : Gate gate) (hfresh : P {}) (rules : SessionRules) (mode : PoolMode) :
    Guarded gate P (.opened rules mode) := by
  have hfirst : Guarded gate P { rules, flow := { mode }, held := some {} } := ⟨by simp, fun _ => hfresh⟩
  exact hfirst.releaseIfIdle hgate hfresh

/-! ## Runs -/

theorem Session.handed_closeHeld (commits : Bool) (s : Session) : (s.closeHeld commits).handed = s.handed := by
  unfold Session.closeHeld
  split <;> rfl

theorem Tried.handed (h : Tried luck request s s') : s'.handed = s.handed := by
  obtain h | h := h
  · exact h.handed
  · exact h.handed

theorem Recycled.handed {resetQuery : Option Text} {clean : Bool} (h : Recycled luck s resetQuery clean s') :
    s'.handed = s.handed := by
  cases h with
  | discarded hconn => exact hconn.handed
  | reset hstart hcalled _ hend => rw [hend.handed, hcalled.tried.handed, hstart.handed]

/-- What holds of a session wherever it is. -/
structure World.Guards (gate : SessionState → Bool) (P : Connection → Prop) (w : World) : Prop where
  handed : ∀ c ∈ w.session.handed, P c
  serving : w.phase = .serving → Guarded gate P w.session

theorem Guarded.guards (h : Guarded gate P w.session) : w.Guards gate P := ⟨h.handed, fun _ => h⟩

theorem World.Guards.step (hgate : Gate gate) (hfresh : P {})
    (hclose : ∀ c : Connection, P c → P { c with tx := none, block := false, closed := true })
    (h : w.Guards gate P)
    (hasks : ∀ m luck writes, e = .message m luck writes → w.phase = .serving →
      ∀ s₁, Asks luck m { w.session with writes } s₁ → Guarded gate P s₁) : (step w e).Guards gate P := by
  have hkept : ∀ w' : World, w'.session.handed = w.session.handed → w'.phase ≠ .serving → w'.Guards gate P := by
    intro w' hhanded hphase
    exact ⟨by rw [hhanded]; exact h.handed, fun hp => absurd hp hphase⟩
  unfold Jdbc.step
  split
  case h_1 => exact hkept _ rfl (by simp)
  case h_2 m luck writes _ hphase =>
    have hturn : ∀ s', Turn luck m { w.session with writes } s' → Guarded gate P s' := fun s' hturn =>
      Guarded.turn hgate hfresh hturn (hasks m luck writes rfl hphase)
    apply Guarded.guards
    apply World.after_session
    exact (onMessage_turn luck m _).conseq (fun _ hs => hs) (fun _ => hturn) hturn
  case h_3 => exact hkept _ rfl (by simp)
  case h_4 => exact hkept _ rfl (by simp)
  case h_5 luck hphase =>
    split
    case isFalse => exact h
    case isTrue =>
      dsimp only
      obtain ⟨_, s', habandon, htried⟩ := (abandon_tried luck (w.session.toldFatal _ _)).returns
      rw [habandon]
      exact hkept _ htried.handed (by simp [World.after])
  case h_6 failed luck retire hphase =>
    split
    case isFalse => exact hkept _ rfl (by simp)
    case isTrue hheld =>
      obtain ⟨clean, s', hrecycle, hrecycled⟩ := (recycle_recycled w.resetQuery failed luck hheld).returns
      rw [hrecycle]
      obtain ⟨hhanded, hover⟩ := w.giveBack_ok clean retire s'
      exact hkept _ (hhanded.trans hrecycled.handed) hover
  case h_7 => exact hkept _ (Session.handed_closeHeld _ _) (by simp)
  case h_8 =>
    refine ⟨?_, fun hphase => (h.serving hphase).closeHeld _ hclose⟩
    rw [Session.handed_closeHeld]
    exact h.handed
  case h_9 => exact h

end Guarded

end Havuz.Jdbc
