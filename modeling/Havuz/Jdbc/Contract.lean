import Mathlib
import Havuz.Jdbc.Replies
import Havuz.Jdbc.Undone

/-!
# The contract of the extended protocol

After an error everything up to the next `Sync` is to be skipped, each `Sync` and each query ends in one
`ReadyForQuery`, and its byte is the state of the connection. The flag of an error is looked at by four kinds of
messages only, and the state is what the last answer said. `Session.orderly` says where that is not enough;
everywhere else the contract is kept (`extended_protocol_kept`).
-/

namespace Havuz.Jdbc

open Lib

variable {s s' s₁ : Session} {luck : Luck} {m : Frontend} {request : Request} {c : TransactionControl}

/-- A transaction is open, whether havuz began it or SQL did. -/
def Connection.inTransaction (c : Connection) : Bool := !c.autoCommit || c.block

/-! ## The condition -/

namespace TransactionControl

/-- Whether it begins or ends a transaction. -/
def turns (c : TransactionControl) (conn : Connection) : Bool :=
  match c with
  | begin => conn.autoCommit
  | _ => !conn.autoCommit

/-- The driver calls by which it does. One more tells of it. -/
def calls : TransactionControl → ℕ
  | begin => 2
  | _ => 3

end TransactionControl

/-- A request that is made now is performed, whether its answer arrives or not. -/
def Session.performs (s : Session) (luck : Luck) : Bool := luck.link.performs && s.borrows luck && !s.conn.closed

/-- No query and no `Close` comes between an error and the next `Sync`; no text leaves a transaction that SQL has
opened; and transaction control that takes effect is answered. -/
structure Session.Orderly (s : Session) (luck : Luck) (m : Frontend) : Prop where
  skips : s.failed = true → m.isQuery = false ∧ m.isClose = false
  text : ∀ sql ∈ s.text m, s.performs luck = true → calm 1 luck.throws = true →
    ((s.jvm luck).performed luck.ran).block = false
  control : ∀ c ∈ s.controls m, s.performs luck = true → c.turns s.conn = true → calm c.calls luck.throws = true →
    luck.link = .answered ∧ calm (c.calls + 1) luck.throws = true

instance (s : Session) (luck : Luck) (m : Frontend) : Decidable (s.Orderly luck m) :=
  decidable_of_iff
    ((s.failed = true → m.isQuery = false ∧ m.isClose = false) ∧
      (∀ sql ∈ s.text m, s.performs luck = true → calm 1 luck.throws = true →
        ((s.jvm luck).performed luck.ran).block = false) ∧
      ∀ c ∈ s.controls m, s.performs luck = true → c.turns s.conn = true → calm c.calls luck.throws = true →
        luck.link = .answered ∧ calm (c.calls + 1) luck.throws = true)
    ⟨fun h => ⟨h.1, h.2.1, h.2.2⟩, fun h => ⟨h.skips, h.text, h.control⟩⟩

/-- The condition on a run, in which the agent does not shut down under a session that serves. -/
def Ordered (w : World) : Event → Prop
  | .message m luck _ => w.phase = .serving → w.session.Orderly luck m
  | .shutdown _ => w.phase ≠ .serving
  | _ => True

instance (w : World) (e : Event) : Decidable (Ordered w e) :=
  match e with
  | .message m luck _ => inferInstanceAs (Decidable (w.phase = .serving → w.session.Orderly luck m))
  | .shutdown _ => inferInstanceAs (Decidable (w.phase ≠ .serving))
  | .hangUp | .kick | .idleTimeout .. | .recycle .. | .close .. => inferInstanceAs (Decidable True)

/-! ## Transaction control -/

/-- The state of the transaction, outside of one that SQL has opened. -/
abbrev Still (on : Bool) : Connection → ℕ → Prop := fun c _ => c.autoCommit = on ∧ c.block = false

theorem still_commit {j : Jvm} {on : Bool} (hj : On (Still on) j) : On (Still on) j.commit := by
  refine ⟨?_, rfl⟩
  rw [← hj.1]
  simp only [Jvm.commit, Connection.autoCommit]
  cases j.conn.tx <;> rfl

theorem still_rollback {j : Jvm} {on : Bool} (hj : On (Still on) j) : On (Still on) j.rollback := by
  refine ⟨?_, rfl⟩
  rw [← hj.1]
  simp only [Jvm.rollback, Connection.autoCommit]
  cases j.conn.tx <;> rfl

theorem still_setAutoCommit {j : Jvm} (hj : On (Still true) j) : On (Still true) (j.setAutoCommit true) := by
  have htx : j.conn.tx = none := Connection.none_of_autoCommit hj.1
  simp only [On, Jvm.setAutoCommit, htx]
  exact hj

/-- Transaction control with nothing to begin or to end. -/
theorem control_idles (c : TransactionControl) {on : Bool} (hturns : on = true ↔ c ≠ .begin) :
    Triple (On (Still on)) (handle luck c.request) (fun _ => On (Still on)) (On (Still on)) := by
  cases c with
  | begin =>
      have hon : on = false := by simpa using hturns
      have hnever : ∀ j : Jvm, On (fun _ _ => False) j → On (Still on) (j.setAutoCommit true) := fun _ hj => hj.elim
      have hbegin : ∀ j : Jvm, On (Still on) j → j.conn.autoCommit = true → On (Still on) (j.setAutoCommit false) := by
        intro j hj hauto
        rw [hj.1, hon] at hauto
        cases hauto
      change Triple _ (handle luck .begin) _ _
      apply Triple.post (plain_on rfl (fun _ => hbegin) (by simp) (by simp) hnever fun _ hj => hj.elim)
      exact fun _ _ h => h.1
  | commit =>
      obtain rfl : on = true := hturns.mpr (by simp)
      change Triple _ (handle luck .commit) _ _
      apply Triple.post (plain_on rfl (by simp) (fun _ _ hj => still_commit hj) (by simp)
        (fun _ hj => still_setAutoCommit hj) fun _ hj => hj)
      exact fun _ _ h => h.1
  | rollback =>
      obtain rfl : on = true := hturns.mpr (by simp)
      change Triple _ (handle luck .rollback) _ _
      apply Triple.post (plain_on rfl (by simp) (by simp) (fun _ _ hj => still_rollback hj)
        (fun _ hj => still_setAutoCommit hj) fun _ hj => hj)
      exact fun _ _ h => h.1

/-- The end of a transaction needs three calls. -/
theorem ending_fails {f : Jvm → Jvm} (hthrows : ∀ j, (f j).throws = j.throws)
    (hf : ∀ j, On (Still false) j → On (Still false) (f j)) :
    Triple (Fails (Still false) 3)
      (do
        if !(← getAutoCommit) then
          driver f
          driver (Jvm.setAutoCommit true))
      (fun _ _ => False) (On (Still false)) := by
  apply getAutoCommit_fails.bind
  intro on
  apply Triple.ite
  · intro _
    apply Triple.bind ((driver_fails hthrows hf).pre fun _ h => h.1)
    intro _
    apply (driver_fails (Q := fun _ _ => True) (fun j => ?_) fun _ _ => trivial).post
    · exact fun _ _ h => not_fails_zero h
    · unfold Jvm.setAutoCommit
      split <;> rfl
  · intro hon
    refine Triple.pure fun j hj => ?_
    rw [Bool.not_eq_true', Bool.not_eq_false] at hon
    have hauto := hj.2.trans hon
    rw [hj.1.1.1] at hauto
    cases hauto

/-- And its beginning two. -/
theorem begin_fails :
    Triple (Fails (Still true) 2) AgentSession.begin (fun _ _ => False) (On (Still true)) := by
  apply getAutoCommit_fails.bind
  intro on
  apply Triple.ite
  · intro _
    apply Triple.post ((driver_fails (Q := fun _ _ => True) (fun j => ?_) fun _ _ => trivial).pre fun _ h => h.1)
    · exact fun _ _ h => not_fails_zero h
    · unfold Jvm.setAutoCommit
      split <;> rfl
  · intro hon
    refine Triple.pure fun j hj => hon ?_
    rw [← hj.2]
    exact hj.1.1.1

/-- Transaction control of which a call throws before it takes effect. -/
theorem control_fails (c : TransactionControl) {on : Bool} (hturns : on = true ↔ c = .begin) :
    Triple (Fails (Still on) c.calls) (handle luck c.request) (fun _ _ => False) (On (Still on)) := by
  apply handle_on _ fun _ hj _ => hj.1
  cases c with
  | begin =>
      obtain rfl : on = true := hturns.mpr rfl
      exact begin_fails.bind fun _ => fun _ h => h.elim
  | commit =>
      obtain rfl : on = false := by simpa using hturns
      exact (ending_fails (f := Jvm.commit) (fun _ => rfl) fun _ => still_commit).bind fun _ => fun _ h => h.elim
  | rollback =>
      obtain rfl : on = false := by simpa using hturns
      exact (ending_fails (f := Jvm.rollback) (fun _ => rfl) fun _ => still_rollback).bind fun _ => fun _ h => h.elim

theorem TransactionControl.turns_eq (c : TransactionControl) (conn : Connection) :
    c.turns conn = true ↔ (conn.autoCommit = true ↔ c = .begin) := by
  cases c <;> simp [turns]

/-- Transaction control that does not take effect leaves the state as it was. -/
theorem control_still {j : Jvm} (hblock : j.conn.block = false)
    (h : ¬ (j.conn.closed = false ∧ c.turns j.conn = true ∧ calm c.calls j.throws = true)) :
    Triple (fun j' => j' = j) (handle luck c.request) (fun _ => On (Still j.conn.autoCommit))
      (On (Still j.conn.autoCommit)) := by
  have hstill : On (Still j.conn.autoCommit) j := ⟨rfl, hblock⟩
  by_cases hturns : c.turns j.conn = true
  · by_cases hcalm : calm c.calls j.throws = true
    · apply Triple.get_bind
      rintro _ rfl
      apply Triple.ite
      · exact fun _ => Triple.throw fun _ hj' => hj' ▸ hstill
      · exact fun hopen => absurd ⟨by simpa using hopen, hturns, hcalm⟩ h
    · rw [Bool.not_eq_true] at hcalm
      apply (control_fails c ((c.turns_eq j.conn).mp hturns)).conseq
      · rintro _ rfl
        exact ⟨hstill, hcalm⟩
      · exact fun _ _ h => h.elim
      · exact fun _ h => h
  · apply (control_idles c ?_).pre
    · rintro _ rfl
      exact hstill
    · rw [c.turns_eq] at hturns
      tauto

theorem Jvm.throws_setAutoCommit (on : Bool) (j : Jvm) : (j.setAutoCommit on).throws = j.throws := by
  unfold setAutoCommit
  split <;> rfl

/-- Transaction control is answered if the calls that it makes succeed, and one more. -/
theorem control_succeeds (c : TransactionControl) :
    Triple (fun j => j.conn.closed = false ∧ calm (c.calls + 1) j.throws = true) (handle luck c.request)
      (fun _ _ => True) (fun _ => False) := by
  let R : Connection → ℕ → Prop := fun _ _ => True
  have htell : Triple (Calm R 1) (do return Answer.state (← AgentSession.inTransaction)) (fun _ _ => True)
      (fun _ => False) := by
    apply Triple.bind (Q := fun _ _ => True)
    · exact getAutoCommit_calm.bind fun _ => Triple.pure fun _ _ => trivial
    · exact fun _ => Triple.pure fun _ _ => trivial
  have hbegin : Triple (Calm R 3) AgentSession.begin (fun _ => Calm R 1) (fun _ => False) := by
    apply getAutoCommit_calm.bind
    intro on
    apply Triple.ite
    · intro _
      exact (driver_calm (Q := R) (Jvm.throws_setAutoCommit false) fun _ _ => trivial).pre fun _ h => h.1
    · exact fun _ => Triple.pure fun _ h => h.1.mono (by decide)
  have hend : ∀ f : Jvm → Jvm, (∀ j, (f j).throws = j.throws) → Triple (Calm R 4)
      (do
        if !(← getAutoCommit) then
          driver f
          driver (Jvm.setAutoCommit true))
      (fun _ => Calm R 1) (fun _ => False) := by
    intro f hf
    apply getAutoCommit_calm.bind
    intro on
    apply Triple.ite
    · intro _
      apply Triple.bind ((driver_calm (Q := R) hf fun _ _ => trivial).pre fun _ h => h.1)
      exact fun _ => driver_calm (Jvm.throws_setAutoCommit true) fun _ _ => trivial
    · exact fun _ => Triple.pure fun _ h => h.1.mono (by decide)
  apply handle_on
  · cases c with
    | begin => exact (hbegin.bind fun _ => htell).pre fun _ h => ⟨trivial, h.2⟩
    | commit => exact ((hend Jvm.commit fun _ => rfl).bind fun _ => htell).pre fun _ h => ⟨trivial, h.2⟩
    | rollback => exact ((hend Jvm.rollback fun _ => rfl).bind fun _ => htell).pre fun _ h => ⟨trivial, h.2⟩
  · rintro j ⟨hopen, -⟩ hclosed
    rw [hopen] at hclosed
    cases hclosed

theorem control_block (c : TransactionControl) :
    Triple (On fun c _ => c.block = false) (handle luck c.request) (fun _ => On fun c _ => c.block = false)
      (On fun c _ => c.block = false) := by
  have hset : ∀ (on : Bool) (j : Jvm), On (fun c _ => c.block = false) j →
      On (fun c _ => c.block = false) (j.setAutoCommit on) := by
    intro on j hj
    unfold Jvm.setAutoCommit
    split
    · rfl
    · exact hj
    · exact hj
    · exact hj
  have hends : ∀ tx : Option ℕ, ∀ j : Jvm,
      On (fun c _ => c.block = false) { j with conn := { j.conn with tx, block := false } } := fun _ _ => rfl
  apply Triple.post (plain_on c.plain_request (fun _ j hj _ => hset false j hj) (fun _ j _ => hends _ j)
    (fun _ j _ => hends _ j) (hset true) fun _ hj => hj)
  exact fun _ _ h => h.1

/-! ## The state of the flow -/

/-- The flow has the state of the connection, and no transaction is open that SQL has opened. -/
structure Level (s : Session) : Prop where
  flow : s.flow.inTransaction = !s.conn.autoCommit
  block : s.conn.block = false

theorem Level.alike (h : Level s) (halike : Alike s s') : Level s' where
  flow := by
    rw [halike.flow, halike.sameConn.conn]
    exact h.flow
  block := by
    rw [halike.sameConn.conn]
    exact h.block

theorem Level.releaseIfIdle (h : Level s) : Level s.releaseIfIdle := by
  unfold Session.releaseIfIdle
  split
  · split
    · exact ⟨rfl, rfl⟩
    · exact h
  · exact h

theorem Level.observeError (h : Level s) (e : AgentError) : Level (s.observeError e) := by
  have hconn := (sameConn_observeError e s).conn
  have hflow : (s.observeError e).flow.inTransaction = s.flow.inTransaction := by
    cases e <;> rfl
  refine ⟨?_, ?_⟩
  · rw [hflow, hconn]
    exact h.flow
  · rw [hconn]
    exact h.block

/-- A request whose answer tells the state, and which leaves it as it was if no answer comes. -/
theorem Level.made {fold : Answer → Session → Session} (h : Level s) (hmade : Made luck request fold s s₁)
    (hfold : ∀ answer s', (fold answer s').conn = s'.conn)
    (hanswered : ∀ answer j s', luck.link = .answered → s.borrows luck = true →
      handle luck request (s.jvm luck) = .ok answer j → Alike (s.through j) s' →
      (fold answer s').flow.inTransaction = (!j.conn.autoCommit) ∧ j.conn.block = false)
    (hrefused : ∀ e j, luck.link = .answered → s.borrows luck = true →
      handle luck request (s.jvm luck) = .error e j → On (Still s.conn.autoCommit) j)
    (hlost : ∀ fault, luck.link = .lost true fault → s.borrows luck = true →
      On (Still s.conn.autoCommit) (afterwards (handle luck request (s.jvm luck)))) : Level s₁ := by
  have hstill : ∀ j : Jvm, On (Still s.conn.autoCommit) j → Level (s.through j) := by
    rintro j ⟨hon, hblock⟩
    refine ⟨?_, hblock⟩
    have hflow : s.flow.inTransaction = !j.conn.autoCommit := by rw [hon, h.flow]
    exact hflow
  cases hmade with
  | exhausted => exact h
  | @answered answer s' hborrows hcalled =>
      cases hcalled with
      | answered hlink hj halike =>
          rw [Session.jvm_borrow] at hj
          rw [Session.through_borrow] at halike
          obtain ⟨hflow, hblock⟩ := hanswered answer _ s' hlink hborrows hj halike
          refine ⟨?_, ?_⟩
          · rw [hfold, halike.sameConn.conn]
            exact hflow
          · rw [hfold, halike.sameConn.conn]
            exact hblock
  | @failed e s' hborrows hcalled =>
      apply Level.observeError
      cases hcalled with
      | refused hlink hj halike =>
          rw [Session.jvm_borrow] at hj
          rw [Session.through_borrow] at halike
          exact (hstill _ (hrefused _ _ hlink hborrows hj)).alike halike
      | @lost performed fault _ hlink halike =>
          cases performed with
          | true =>
              rw [if_pos rfl, Session.jvm_borrow, Session.through_borrow] at halike
              exact (hstill _ (hlost fault hlink hborrows)).alike halike
          | false =>
              have hborrow : Level s.borrow := by
                refine ⟨?_, ?_⟩
                · rw [Session.conn_borrow, Session.borrow_flow]
                  exact h.flow
                · rw [Session.conn_borrow]
                  exact h.block
              exact hborrow.alike halike

theorem Jvm.autoCommit_performed (ran : List Statement) (j : Jvm) :
    (j.performed ran).autoCommit = j.conn.autoCommit := by
  unfold performed
  induction ran generalizing j with
  | nil => rfl
  | cons statement ran ih =>
      rw [List.foldl_cons, ih]
      cases statement with
      | work leaves => simp [perform, Connection.autoCommit]
      | opens => rfl
      | commits => simp [perform, commit, Connection.autoCommit]
      | rollsBack => simp [perform, rollback, Connection.autoCommit]

theorem Session.performs_of (hlink : luck.link.performs = true) (hborrows : s.borrows luck = true)
    (hopen : s.conn.closed = false) : s.performs luck = true := by
  simp only [performs, hlink, hborrows, hopen, Bool.not_false, Bool.and_self]

theorem Level.describes {sql : Text} (h : Level s) (hmade : Made luck (.describe sql) (fun _ => id) s s₁) :
    Level s₁ := by
  have hs : On (Still s.conn.autoCommit) (s.jvm luck) := ⟨rfl, h.block⟩
  have hkeeps : Triple (On (Still s.conn.autoCommit)) (handle luck (.describe sql))
      (fun _ => On (Still s.conn.autoCommit)) (On (Still s.conn.autoCommit)) := by
    apply handle_on _ fun _ hj _ => hj
    exact describe_on.bind fun _ => Triple.pure fun _ hj => hj
  apply h.made hmade fun _ _ => rfl
  · intro answer j s' _ _ hj halike
    obtain ⟨hon, hblock⟩ := hkeeps.ok hs hj
    rw [id, halike.flow, hon]
    exact ⟨h.flow, hblock⟩
  · exact fun e j _ _ hj => hkeeps.error hs hj
  · exact fun fault _ _ => afterwards_on hkeeps (fun _ _ hj => hj) hs

theorem Level.controls (h : Level s) (hcontrol : s.controls m = some c)
    (hmade : Made luck c.request
      (fun a => Session.observeFlow (if a.inTransaction then .inTransaction else .idle)) s s₁)
    (horderly : s.Orderly luck m) : Level s₁ := by
  have htakes : luck.link.performs = true → s.borrows luck = true → s.conn.closed = false ∧
      c.turns s.conn = true ∧ calm c.calls luck.throws = true →
      luck.link = .answered ∧ calm (c.calls + 1) luck.throws = true :=
    fun hlink hborrows heffect =>
      horderly.control c hcontrol (Session.performs_of hlink hborrows heffect.1) heffect.2.1 heffect.2.2
  have hstill : ∀ hno, Triple (fun j => j = s.jvm luck) (handle luck c.request) _ _ := fun hno => control_still h.block hno
  apply h.made hmade fun _ _ => rfl
  · intro answer j s' _ _ hj halike
    have hblock : j.conn.block = false := (control_block c).ok (Session.on h.block) hj
    refine ⟨?_, hblock⟩
    rw [control_tells hj]
    cases answer.inTransaction <;> rfl
  · intro e j hlink hborrows hj
    apply (hstill _).error rfl hj
    intro heffect
    obtain ⟨-, hcalm⟩ := htakes (by rw [hlink]; rfl) hborrows heffect
    exact (control_succeeds c).error ⟨heffect.1, hcalm⟩ hj
  · intro fault hlink hborrows
    apply afterwards_on (hstill _) (fun _ _ hj => hj) rfl
    intro heffect
    obtain ⟨hanswered, -⟩ := htakes (by rw [hlink]; rfl) hborrows heffect
    rw [hlink] at hanswered
    cases hanswered

theorem Level.runs {sql : Text} {values : List Value} (h : Level s) (htext : s.text m = some sql)
    (hmade : Made luck (.execute sql values) (fun a => Session.observe sql a.outcome.inTransaction) s s₁)
    (horderly : s.Orderly luck m) : Level s₁ := by
  have hreached : ∀ c : Connection, luck.link.performs = true → s.borrows luck = true →
      Reached luck (s.jvm luck) c → Still s.conn.autoCommit c 0 := by
    intro c hlink hborrows hc
    rw [hc.performed]
    refine ⟨Jvm.autoCommit_performed _ _, ?_⟩
    exact horderly.text sql htext (Session.performs_of hlink hborrows hc.opened) hc.created
  have hperformed : Triple _ (handle luck (.execute sql values)) _ _ := execute_performed (s.jvm luck)
  apply h.made hmade fun _ _ => rfl
  · intro answer j s' hlink hborrows hj _
    have htells : Triple (On fun _ _ => True) (handle luck (.execute sql values)) _ _ :=
      execute_request_on fun _ _ _ _ => trivial
    obtain ⟨-, outcome, rfl, hon⟩ := htells.ok trivial hj
    have hblock := (hreached j.conn (by rw [hlink]; rfl) hborrows (hperformed.ok rfl hj)).2
    refine ⟨?_, hblock⟩
    rw [hon, Bool.not_not]
    exact Session.inTransaction_observe _ _ _
  · intro e j hlink hborrows hj
    obtain hbefore | hc := hperformed.error rfl hj
    · rw [On, hbefore]
      exact ⟨rfl, h.block⟩
    · exact hreached j.conn (by rw [hlink]; rfl) hborrows hc
  · intro fault hlink hborrows
    have hafter := afterwards_on hperformed (fun _ _ hj => .inr hj) rfl
    obtain hbefore | hc := hafter
    · rw [On, hbefore]
      exact ⟨rfl, h.block⟩
    · exact hreached _ (by rw [hlink]; rfl) hborrows hc

theorem Level.asks (h : Level s) (hasks : Asks luck m s s₁) (horderly : s.Orderly luck m) : Level s₁ := by
  cases hasks with
  | nothing => exact h
  | idles hheld =>
      refine ⟨?_, h.block⟩
      simp [Session.conn, Session.observeFlow, hheld, SessionState.observe, Connection.autoCommit]
  | describes hmade => exact h.describes hmade
  | controls hcontrol hmade => exact h.controls hcontrol hmade horderly
  | runs htext hmade => exact h.runs htext hmade horderly

theorem Made.handed {fold : Answer → Session → Session} (hmade : Made luck request fold s s₁)
    (hfold : ∀ answer s', (fold answer s').handed = s'.handed) : s₁.handed = s.handed := by
  cases hmade with
  | exhausted => rfl
  | answered _ hcalled => rw [hfold, hcalled.tried.handed, s.borrow_handed]
  | @failed e s' _ hcalled => rw [(sameConn_observeError e s').handed, hcalled.tried.handed, s.borrow_handed]

theorem Asks.handed (hasks : Asks luck m s s₁) : s₁.handed = s.handed := by
  cases hasks with
  | nothing => rfl
  | idles _ => rfl
  | describes hmade => exact hmade.handed fun _ _ => rfl
  | controls _ hmade => exact hmade.handed fun _ _ => rfl
  | runs _ hmade => exact hmade.handed fun _ _ => rfl

/-- The connection that the last message was served on: the one that was given back after it, if one was. -/
def Session.servedOn (s s' : Session) : Connection := (s'.handed.drop s.handed.length).headD s'.conn

/-- What a client should be told of the connection. -/
def Connection.status (c : Connection) : TransactionStatus := if c.inTransaction then .inTransaction else .idle

theorem Level.inTransaction (h : Level s) : s.flow.inTransaction = s.conn.inTransaction := by
  rw [Connection.inTransaction, h.flow, h.block, Bool.or_false]

/-- What the session says of the flow is the state of the connection. -/
theorem Level.turn (h : Level s) (hturn : Turn luck m s s') (horderly : s.Orderly luck m) :
    Level s' ∧ s'.status = (s.servedOn s').status := by
  obtain ⟨s₁, hasks, hend⟩ := hturn
  have hs₁ : Level s₁ := h.asks hasks horderly
  have hhanded := hasks.handed
  have hsame : ∀ s', s'.handed = s.handed → Level s' → s'.status = (s.servedOn s').status := by
    intro s' hs' hlevel
    rw [Session.servedOn, hs', List.drop_length, List.headD_nil, Session.status, Connection.status,
      hlevel.inTransaction]
  obtain halike | halike := hend
  · exact ⟨hs₁.alike halike, hsame s' (halike.handed.trans hhanded) (hs₁.alike halike)⟩
  · have hlevel := hs₁.releaseIfIdle.alike halike
    refine ⟨hlevel, ?_⟩
    unfold Session.releaseIfIdle at halike
    split at halike
    case h_1 b hheld =>
      split at halike
      case isTrue hrel =>
        have hidle : s₁.flow.inTransaction = false := (releasable_iff.mp hrel).2
        have hb : b.conn.inTransaction = false := by
          have hconn := hs₁.inTransaction
          rw [Session.conn, hheld, hidle] at hconn
          exact hconn.symm
        have hflow : s'.flow.inTransaction = false := by
          rw [halike.flow]
          rfl
        rw [Session.servedOn, halike.handed, hhanded, List.drop_left, List.headD_cons, Session.status,
          Connection.status, hflow, hb]
      case isFalse => exact hsame s' (halike.handed.trans hhanded) hlevel
    case h_2 => exact hsame s' (halike.handed.trans hhanded) hlevel

/-! ## Runs -/

variable {w : World} {e : Event}

/-- **Step lemma.** The flow of a session that serves keeps the state of its connection. -/
theorem level_step (h : w.phase = .serving → Level w.session) (hordered : Ordered w e) :
    (step w e).phase = .serving → Level (step w e).session := by
  unfold step
  split
  case h_1 => simp
  case h_2 m luck writes _ hphase =>
    have hlevel : Level { w.session with writes } := (h hphase).alike ⟨rfl, rfl, rfl, rfl, rfl⟩
    have horderly : Session.Orderly { w.session with writes } luck m :=
      ⟨(hordered hphase).skips, (hordered hphase).text, (hordered hphase).control⟩
    intro _
    apply World.after_session
    exact (onMessage_turn luck m _).conseq (fun _ hs => hs) (fun _ _ hturn => (hlevel.turn hturn horderly).1)
      fun _ hturn => (hlevel.turn hturn horderly).1
  case h_3 => simp
  case h_4 => simp
  case h_5 luck hphase =>
    split
    case isFalse => exact h
    case isTrue =>
      dsimp only
      obtain ⟨_, s', habandon, -⟩ := (abandon_tried luck (w.session.toldFatal _ _)).returns
      rw [habandon]
      simp [World.after]
  case h_6 failed luck retire hphase =>
    split
    case isFalse => simp
    case isTrue hheld =>
      obtain ⟨clean, s', hrecycle, -⟩ := (recycle_recycled w.resetQuery failed luck hheld).returns
      rw [hrecycle]
      exact fun hserving => absurd hserving (w.giveBack_ok clean retire s').2
  case h_7 => simp
  case h_8 => exact fun hphase => absurd hphase hordered
  case h_9 => exact h

/-- What the contract asks of one message, which finds the session `s` and leaves `s'`. -/
structure Kept (m : Frontend) (goesOn : Prop) (s s' : Session) : Prop where
  /-- After an error nothing is answered and nothing is done. -/
  skipped : s.failed = true → m ≠ .sync →
    s'.told = s.told ∧ s'.statements = s.statements ∧ s'.portals = s.portals ∧ s'.asked = s.asked ∧ s'.failed = true
  /-- An error of the extended protocol is remembered, and each `Sync` and each query is answered by one
  `ReadyForQuery`, which tells the state of the connection. -/
  answered : ∃ new, s'.told = s.told ++ new ∧
    (m.isQuery = false → (∃ r ∈ new, r.isError = true) → s'.failed = true) ∧
    (goesOn → new.countP Reply.isReady = if m.synchronizes then 1 else 0) ∧
    ∀ status, .readyForQuery status ∈ new → status = (s.servedOn s').status

theorem Does.told (h : Does luck m s s₁) : s₁.told = s.told := by
  cases h with
  | nothing _ => rfl
  | asks _ hasking => exact hasking.told
  | parses _ _ hasking => exact hasking.told
  | binds _ => rfl
  | @closes ofStatement _ _ =>
      unfold Session.closed
      cases ofStatement <;> rfl
  | syncs => rfl

/-- A message is answered by what it is answered, and then perhaps by `ReadyForQuery`. -/
theorem Served.kept {goesOn : Prop} (hskipped : s.failed = true → m ≠ .sync → False) (hsync : m.synchronizes = true)
    (hserved : Served luck m m.isQuery s s') (hstatus : s'.status = (s.servedOn s').status) :
    Kept m goesOn s s' := by
  obtain ⟨s₁, hdoes, ⟨new, htold, hnew, herrors⟩, -⟩ := hserved
  refine ⟨fun hfailed hm => (hskipped hfailed hm).elim, new ++ [.readyForQuery s'.status], ?_, ?_, ?_, ?_⟩
  · rw [htold, hdoes.told, List.append_assoc]
  · rintro hquery ⟨r, hr, herror⟩
    obtain hr | hr := List.mem_append.mp hr
    · exact (herrors ⟨r, hr, herror⟩).resolve_left (by rw [hquery]; simp)
    · rw [List.mem_singleton.mp hr] at herror
      cases herror
  · intro _
    have hnone : new.countP Reply.isReady = 0 := List.countP_eq_zero.mpr fun r hr => by rw [hnew r hr]; simp
    rw [List.countP_append, hnone, hsync]
    rfl
  · intro status hmem
    obtain hmem | hmem := List.mem_append.mp hmem
    · cases hnew _ hmem
    · cases List.mem_singleton.mp hmem
      exact hstatus

theorem Handled.kept {goesOn : Prop} (hskipped : s.failed = true → m ≠ .sync → False)
    (hsync : goesOn → m.synchronizes = false) (hhandled : Handled luck m m.isQuery s s') :
    Kept m goesOn s s' := by
  obtain ⟨s₁, hdoes, ⟨new, htold, hnew, herrors⟩, -⟩ := hhandled
  refine ⟨fun hfailed hm => (hskipped hfailed hm).elim, new, ?_, ?_, ?_, ?_⟩
  · rw [htold, hdoes.told]
  · intro hquery herror
    exact (herrors herror).resolve_left (by rw [hquery]; simp)
  · intro hgoes
    rw [hsync hgoes]
    exact List.countP_eq_zero.mpr fun r hr => by rw [hnew r hr]; simp
  · exact fun status hmem => by cases hnew _ hmem

theorem Kept.unchanged {goesOn : Prop} (hsync : m.synchronizes = false) : Kept m goesOn s s where
  skipped hfailed _ := ⟨rfl, rfl, rfl, rfl, hfailed⟩
  answered := ⟨[], by simp, by simp, by simp [hsync], by simp⟩

/-- One message, after the condition. -/
theorem kept_step {m : Frontend} {luck : Luck} {writes : List Bool} (hlevel : Level w.session)
    (horderly : w.session.Orderly luck m) (hkind : ∀ tag, m ≠ .other tag) (hphase : w.phase = .serving) :
    Kept m ((step w (.message m luck writes)).phase = .serving) w.session
      (step w (.message m luck writes)).session := by
  by_cases hterminate : m = .terminate
  · subst hterminate
    have hstep : step w (.message .terminate luck writes) = { w with phase := .left false } := by
      rw [step]
      exact hphase
    rw [hstep]
    exact .unchanged rfl
  have hstep : step w (.message m luck writes) =
      w.after (onMessage luck m { w.session with writes }) .serving (.left true) := by
    rw [step]
    · exact hterminate
    · exact hphase
  -- a message that is skipped, or does nothing, leaves the session as it was
  have hsame : onMessage luck m { w.session with writes } = .ok () { w.session with writes } →
      m.synchronizes = false → Kept m ((step w (.message m luck writes)).phase = .serving) w.session
        (step w (.message m luck writes)).session := by
    intro hok hsync
    rw [hstep, hok]
    have hunchanged : Kept m (Phase.serving = .serving) w.session w.session := .unchanged hsync
    exact ⟨hunchanged.skipped, hunchanged.answered⟩
  by_cases hskips : w.session.failed = true ∧ m ≠ .sync
  · obtain ⟨hfailed, hm⟩ := hskips
    obtain ⟨hquery, hclose⟩ := horderly.skips hfailed
    cases m with
    | parse name sql => exact hsame (onMessage_skips luck rfl hfailed) rfl
    | bind portal statement sent => exact hsame (onMessage_skips luck rfl hfailed) rfl
    | describe ofStatement name => exact hsame (onMessage_skips luck rfl hfailed) rfl
    | execute portal => exact hsame (onMessage_skips luck rfl hfailed) rfl
    | flush => exact hsame rfl rfl
    | terminate => exact absurd rfl hterminate
    | query sql => cases hquery
    | close ofStatement name => cases hclose
    | sync => exact absurd rfl hm
    | other tag => exact absurd rfl (hkind tag)
  have hskipped : Session.failed { w.session with writes } = true → m ≠ .sync → False :=
    fun hfailed hm => hskips ⟨hfailed, hm⟩
  have hstart : Level { w.session with writes } := hlevel.alike ⟨rfl, rfl, rfl, rfl, rfl⟩
  have hkeeps : Session.Orderly { w.session with writes } luck m :=
    ⟨horderly.skips, horderly.text, horderly.control⟩
  have hhandled := onMessage_handled luck hkind { w.session with writes }
  have hturn := onMessage_turn luck m { w.session with writes }
  rw [hstep]
  cases hresult : onMessage luck m { w.session with writes } with
  | ok _ s' =>
      have hstatus := (hstart.turn (hturn.ok rfl hresult) hkeeps).2
      have hserved := hhandled.ok rfl hresult
      cases hsync : m.synchronizes with
      | true =>
          rw [hsync, if_pos rfl] at hserved
          have hkept : Kept m (Phase.serving = .serving) { w.session with writes } s' :=
            hserved.kept hskipped hsync hstatus
          exact ⟨hkept.skipped, hkept.answered⟩
      | false =>
          rw [hsync, if_neg (by simp)] at hserved
          have hkept : Kept m (Phase.serving = .serving) { w.session with writes } s' :=
            hserved.kept hskipped fun _ => hsync
          exact ⟨hkept.skipped, hkept.answered⟩
  | error _ s' =>
      have hkept : Kept m (Phase.left true = .serving) { w.session with writes } s' :=
        (hhandled.error rfl hresult).kept hskipped fun hgoes => by cases hgoes
      exact ⟨hkept.skipped, hkept.answered⟩

variable {rules : SessionRules} {mode : PoolMode} {resetQuery : Option Text} {ls : List Event} {writes : List Bool}

/-- **The extended protocol is kept.** In every run that is in order, after an error everything up to the next
`Sync` is skipped, each `Sync` and each query ends in one `ReadyForQuery`, and its byte is the state of the
connection. -/
theorem extended_protocol_kept
    (hrun : Along step Ordered (opened rules mode resetQuery) (ls ++ [.message m luck writes]))
    (hkind : ∀ tag, m ≠ .other tag) :
    let w := run step (opened rules mode resetQuery) ls
    let w' := step w (.message m luck writes)
    w.phase = .serving → Kept m (w'.phase = .serving) w.session w'.session := by
  intro w w' hphase
  have hfresh : Level { rules, flow := { mode }, held := some {} } := ⟨rfl, rfl⟩
  have hstart : (opened rules mode resetQuery).phase = .serving → Level (opened rules mode resetQuery).session :=
    fun _ => hfresh.releaseIfIdle
  obtain ⟨hbefore, hlast⟩ := Along.append.mp hrun
  have hlevel := hbefore.invariant (I := fun w => w.phase = .serving → Level w.session)
    (fun _ _ hw hordered => level_step hw hordered) hstart
  exact kept_step (hlevel hphase) (hlast.1 hphase) hkind hphase

/-- A bind that fails, an execute that is skipped, and the `Sync` after them. -/
theorem extended_protocol_kept_sync :
    let ls := [Event.message (.bind [] [] []) {} [], .message (.execute []) {} []]
    let w := run step (opened postgresqlRules .transaction none) ls
    w.session.failed = true ∧ w.session.told.length = 1 ∧
      (w.phase = .serving →
        Kept .sync ((step w (.message .sync {} [])).phase = .serving) w.session
          (step w (.message .sync {} [])).session) :=
  ⟨by decide, by decide, extended_protocol_kept (by decide) (by simp)⟩

/-- `Close` does not look at the flag of an error. -/
theorem not_extended_protocol_kept :
    ¬ ∀ ls m, (∀ tag, m ≠ .other tag) →
      let w := run step (opened postgresqlRules .transaction none) ls
      let w' := step w (.message m {} [])
      w.phase = .serving → Kept m (w'.phase = .serving) w.session w'.session := by
  intro h
  have hkept := h [.message (.execute []) {} []] (.close true []) (by simp) (by decide)
  have htold := (hkept.skipped (by decide) (by simp)).1
  revert htold
  decide

end Havuz.Jdbc
