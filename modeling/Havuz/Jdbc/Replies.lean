import Havuz.Jdbc.Turn

/-!
# What a message is answered

A message does one thing to the session, a request or a change of its tables (`Does`), and then it is answered
(`onMessage_answered`). Only `ready` says that the session is ready, and an error of the extended protocol is
said by `fail`.
-/

namespace Havuz.Jdbc

open Lib

variable {s s' s₀ s₁ : Session} {luck : Luck} {m : Frontend} {requests : List Request} {simple : Bool}

namespace Reply

def isReady : Reply → Bool
  | readyForQuery _ => true
  | _ => false

def isError : Reply → Bool
  | errorResponse _ _ _ => true
  | _ => false

end Reply

/-- What a client is told of the flow. -/
def Session.status (s : Session) : TransactionStatus := if s.flow.inTransaction then .inTransaction else .idle

/-! ## Requests -/

/-- The client could not tell, and nothing was asked of the agent. -/
structure Unseen (s s' : Session) : Prop where
  told : s'.told = s.told
  failed : s'.failed = s.failed
  statements : s'.statements = s.statements
  portals : s'.portals = s.portals
  asked : s'.asked = s.asked

/-- The same but for the requests that were made. -/
structure Asking (requests : List Request) (s s' : Session) : Prop where
  told : s'.told = s.told
  failed : s'.failed = s.failed
  statements : s'.statements = s.statements
  portals : s'.portals = s.portals
  asked : s'.asked = s.asked ++ requests

theorem Unseen.refl (s : Session) : Unseen s s := ⟨rfl, rfl, rfl, rfl, rfl⟩

theorem Unseen.trans (h : Unseen s₀ s) (h' : Unseen s s') : Unseen s₀ s' :=
  ⟨h'.told.trans h.told, h'.failed.trans h.failed, h'.statements.trans h.statements, h'.portals.trans h.portals,
    h'.asked.trans h.asked⟩

theorem Unseen.asking (h : Unseen s₀ s) (h' : Asking requests s s') : Asking requests s₀ s' where
  told := h'.told.trans h.told
  failed := h'.failed.trans h.failed
  statements := h'.statements.trans h.statements
  portals := h'.portals.trans h.portals
  asked := by
    rw [← h.asked]
    exact h'.asked

theorem Asking.unseen (h : Asking requests s₀ s) (h' : Unseen s s') : Asking requests s₀ s' where
  told := h'.told.trans h.told
  failed := h'.failed.trans h.failed
  statements := h'.statements.trans h.statements
  portals := h'.portals.trans h.portals
  asked := by
    rw [h'.asked]
    exact h.asked

theorem Unseen.nothing (h : Unseen s s') : Asking [] s s' :=
  ⟨h.told, h.failed, h.statements, h.portals, by rw [h.asked, List.append_nil]⟩

theorem unseen_borrow (s : Session) : Unseen s s.borrow := by
  unfold Session.borrow
  split
  · exact .refl s
  · exact ⟨rfl, rfl, rfl, rfl, rfl⟩

theorem unseen_observeFlow (event : FlowEvent) (s : Session) : Unseen s (s.observeFlow event) :=
  ⟨rfl, rfl, rfl, rfl, rfl⟩

theorem unseen_observe (sql : Text) (tx : Bool) (s : Session) : Unseen s (s.observe sql tx) :=
  ⟨rfl, rfl, rfl, rfl, rfl⟩

theorem unseen_observeError (e : AgentError) (s : Session) : Unseen s (s.observeError e) := by
  cases e with
  | database state text => exact .refl s
  | fault fault => exact ⟨rfl, rfl, rfl, rfl, rfl⟩
  | exhausted text => exact ⟨rfl, rfl, rfl, rfl, rfl⟩

theorem unseen_releaseIfIdle (s : Session) : Unseen s s.releaseIfIdle := by
  unfold Session.releaseIfIdle
  split
  · split
    · exact ⟨rfl, rfl, rfl, rfl, rfl⟩
    · exact .refl s
  · exact .refl s

theorem call_asking (luck : Luck) (request : Request) (s : Session) :
    Triple (fun s' => s' = s) (call luck request) (fun _ => Asking [request] s) (fun _ => False) := by
  have hasked : ∀ (held : Option Backend) (b : Backend) (j : Jvm),
      Asking [request] s (Session.after { s with held, asked := s.asked ++ [request] } b j) :=
    fun _ _ _ => ⟨rfl, rfl, rfl, rfl, rfl⟩
  have hlost : ∀ held : Option Backend, Asking [request] s { s with held, asked := s.asked ++ [request] } :=
    fun _ => ⟨rfl, rfl, rfl, rfl, rfl⟩
  apply Triple.at_state
  cases hheld : s.held with
  | none =>
      simp only [call, bind_apply, get_apply, modify_apply, hheld]
      exact hlost none
  | some b =>
      simp only [call, bind_apply, get_apply, modify_apply, hheld]
      cases handle luck request ⟨b.conn, s.durable, luck.throws⟩ with
      | ok answer j =>
          cases luck.link with
          | answered => exact hasked (some b) b j
          | lost performed fault =>
              cases performed with
              | true => exact hasked (some b) b j
              | false => exact hlost (some b)
      | error e j =>
          cases luck.link with
          | answered => exact hasked (some b) b j
          | lost performed fault =>
              cases performed with
              | true => exact hasked (some b) b j
              | false => exact hlost (some b)

theorem runSql_asking (luck : Luck) (sql : Text) (values : List Value) (s : Session) :
    Triple (fun s' => s' = s) (runSql luck sql values)
      (fun _ => Asking (if s.borrows luck then [.execute sql values] else []) s) (fun _ => False) := by
  unfold runSql
  apply (backend_borrow luck s).bind
  intro r
  apply Triple.of_state
  rintro s₁ (⟨rfl, rfl, hborrows⟩ | ⟨⟨text, rfl⟩, rfl, hborrows⟩)
  · rw [hborrows]
    apply (call_asking luck _ s.borrow).bind
    rintro (e | answer)
    · exact Triple.modify_pure fun s' h => ((unseen_borrow s).asking h).unseen (unseen_observeError e s')
    · exact Triple.modify_pure fun s' h => ((unseen_borrow s).asking h).unseen (unseen_observe _ _ s')
  · rw [hborrows]
    exact Triple.pure fun _ h => h ▸ (Unseen.refl _).nothing

/-- A description succeeds only if it reaches the agent and no driver call throws. -/
def Session.describes (s : Session) (luck : Luck) : Bool :=
  luck.link = .answered && s.borrows luck && !s.conn.closed && calm 2 luck.throws

theorem agentDescribe_asking (luck : Luck) (sql : Text) (s : Session) :
    Triple (fun s' => s' = s) (agentDescribe luck sql)
      (fun r s' => (∃ requests, Asking requests s s') ∧ ∀ described, r = .ok described → s.describes luck = true)
      (fun _ => False) := by
  unfold agentDescribe
  apply (backend_borrow luck s).bind
  intro r
  apply Triple.of_state
  rintro s₁ (⟨rfl, rfl, hborrows⟩ | ⟨⟨text, rfl⟩, rfl, -⟩)
  · have hheld : s.borrow.held.isSome = true := by
      rw [Session.held_borrow]
      rfl
    have hcall := (call_asking luck (.describe sql) s.borrow).and (call_called luck (.describe sql) hheld)
    apply (hcall.conseq (fun _ h => h) (fun _ _ h => h) fun _ h => h.1).bind
    rintro (e | answer)
    · refine Triple.modify_pure fun s' h => ⟨?_, by simp⟩
      exact ⟨_, ((unseen_borrow s).asking h.1).unseen (unseen_observeError e s')⟩
    · refine Triple.pure fun s' h => ⟨⟨_, (unseen_borrow s).asking h.1⟩, fun _ _ => ?_⟩
      obtain ⟨-, hcalled⟩ := h
      cases hcalled with
      | answered hlink hj _ =>
          rw [Session.jvm_borrow] at hj
          by_contra hdescribes
          have hfails : (s.jvm luck).conn.closed = true ∨ calm 2 (s.jvm luck).throws = false := by
            simp only [Session.describes, hlink, hborrows, decide_true, Bool.true_and, Bool.and_eq_true,
              Bool.not_eq_true', not_and_or, Bool.not_eq_false, Bool.not_eq_true] at hdescribes
            exact hdescribes
          exact describe_fails.ok hfails hj
  · exact Triple.pure fun _ h => ⟨⟨[], h ▸ (Unseen.refl _).nothing⟩, by simp⟩

/-- Ending a transaction nobody started needs no backend. -/
def Session.needsBackend (s : Session) (c : TransactionControl) : Bool := s.held.isSome || c == .begin

theorem control_asking (luck : Luck) (c : TransactionControl) (s : Session) :
    Triple (fun s' => s' = s) (control luck c)
      (fun _ => Asking (if s.needsBackend c && s.borrows luck then [c.request] else []) s) (fun _ => False) := by
  unfold control
  apply Triple.get_bind
  rintro s' rfl
  apply Triple.ite
  · intro hidle
    have hneeds : s'.needsBackend c = false := by
      simpa [Session.needsBackend] using hidle
    rw [hneeds]
    exact Triple.modify_pure fun s₁ h => h ▸ (unseen_observeFlow _ _).nothing
  · intro hgoes
    have hneeds : s'.needsBackend c = true := by
      cases hheld : s'.held <;> simp_all [Session.needsBackend]
    apply (backend_borrow luck s').bind
    intro r
    apply Triple.of_state
    rintro s₁ (⟨rfl, rfl, hborrows⟩ | ⟨⟨text, rfl⟩, rfl, hborrows⟩)
    · rw [hneeds, hborrows]
      apply (call_asking luck _ s'.borrow).bind
      rintro (e | answer)
      · exact Triple.modify_pure fun s₁ h => ((unseen_borrow s').asking h).unseen (unseen_observeError e s₁)
      · exact Triple.modify_pure fun s₁ h => ((unseen_borrow s').asking h).unseen (unseen_observeFlow _ s₁)
    · rw [hneeds, hborrows]
      exact Triple.pure fun _ h => h ▸ (Unseen.refl _).nothing

/-! ## Replies -/

/-- Replies were written, none of them that the session is ready, and no error but by `fail`, unless the message
is a simple query. -/
structure Answering (simple : Bool) (s s' : Session) : Prop where
  told : ∃ new, s'.told = s.told ++ new ∧ (∀ r ∈ new, r.isReady = false) ∧
    ((∃ r ∈ new, r.isError = true) → simple = true ∨ s'.failed = true)
  failed : s.failed = true → s'.failed = true
  statements : s'.statements = s.statements
  portals : s'.portals = s.portals
  asked : s'.asked = s.asked

theorem Answering.refl (simple : Bool) (s : Session) : Answering simple s s :=
  ⟨⟨[], by simp, by simp, by simp⟩, id, rfl, rfl, rfl⟩

/-- A command that only answers. -/
def Answers (simple : Bool) (s₀ : Session) {α : Type} (c : Serve α) : Prop :=
  Triple (Answering simple s₀) c (fun _ => Answering simple s₀) (Answering simple s₀)

theorem Answers.bind {α β : Type} {c : Serve α} {f : α → Serve β} (hc : Answers simple s₀ c)
    (hf : ∀ a, Answers simple s₀ (f a)) : Answers simple s₀ (c >>= f) :=
  Triple.bind hc hf

theorem answers_pure {α : Type} (a : α) : Answers simple s₀ (pure a) := Triple.pure fun _ h => h

/-- A write adds the reply, or the session stops. -/
theorem Triple.write {P : Session → Prop} {Q : Unit → Session → Prop} {E : Session → Prop} {r : Reply}
    (hok : ∀ s writes, P s → Q () { s with told := s.told ++ [r], writes })
    (herr : ∀ s writes, P s → E { s with writes }) : Triple P (write r) Q E := by
  intro s hs
  cases hw : s.writes with
  | nil =>
      simp only [Jdbc.write, hw]
      exact hok s _ hs
  | cons fails rest =>
      cases fails with
      | false =>
          simp only [Jdbc.write, hw]
          exact hok s _ hs
      | true =>
          simp only [Jdbc.write, hw]
          exact herr s _ hs

theorem answers_write {r : Reply} (hready : r.isReady = false) (herror : r.isError = true → simple = true) :
    Answers simple s₀ (write r) := by
  apply Triple.write
  · rintro s writes ⟨⟨new, htold, hnew, herrors⟩, hfailed, hstatements, hportals, hasked⟩
    refine ⟨⟨new ++ [r], by simp [htold], ?_, ?_⟩, hfailed, hstatements, hportals, hasked⟩
    · intro r' hr'
      obtain hr' | hr' := List.mem_append.mp hr'
      · exact hnew r' hr'
      · rw [List.mem_singleton.mp hr']
        exact hready
    · rintro ⟨r', hr', hiserror⟩
      obtain hr' | hr' := List.mem_append.mp hr'
      · exact herrors ⟨r', hr', hiserror⟩
      · rw [List.mem_singleton.mp hr'] at hiserror
        exact .inl (herror hiserror)
  · rintro s writes ⟨htold, hfailed, hstatements, hportals, hasked⟩
    exact ⟨htold, hfailed, hstatements, hportals, hasked⟩

theorem answers_fail (code message : Text) : Answers simple s₀ (fail code message) := by
  have hmarked : Triple (Answering simple s₀) (modify fun s => { s with failed := true } : Serve Unit)
      (fun _ s => Answering simple s₀ s ∧ s.failed = true) (Answering simple s₀) := by
    apply Triple.modified
    rintro s ⟨⟨new, htold, hnew, -⟩, -, hstatements, hportals, hasked⟩
    exact ⟨⟨⟨new, htold, hnew, fun _ => .inr rfl⟩, fun _ => rfl, hstatements, hportals, hasked⟩, rfl⟩
  unfold fail
  apply hmarked.bind
  intro _
  apply Triple.write
  · rintro s writes ⟨⟨⟨new, htold, hnew, -⟩, hfailed, hstatements, hportals, hasked⟩, hs⟩
    refine ⟨⟨new ++ [.errorResponse "ERROR".toList code message], by simp [htold], ?_, fun _ => .inr hs⟩,
      fun _ => hs, hstatements, hportals, hasked⟩
    intro r hr
    obtain hr | hr := List.mem_append.mp hr
    · exact hnew r hr
    · rw [List.mem_singleton.mp hr]
      rfl
  · rintro s writes ⟨⟨htold, hfailed, hstatements, hportals, hasked⟩, -⟩
    exact ⟨htold, hfailed, hstatements, hportals, hasked⟩

theorem answers_rows (rows : List (List (Option Bytes))) :
    Answers simple s₀ (rows.forM fun row => write (.dataRow row)) := by
  induction rows with
  | nil => exact answers_pure _
  | cons row rows ih => exact (answers_write rfl (by simp [Reply.isError])).bind fun _ => ih

theorem answers_emit (sql : Text) (outcome : Outcome) (describe : Bool) :
    Answers simple s₀ (emit sql outcome describe) := by
  have hrest : Answers simple s₀ (do
      outcome.rows.forM fun row => write (.dataRow row)
      write (.completed sql outcome.rows.length outcome.updateCount)) :=
    (answers_rows _).bind fun _ => answers_write rfl (by simp [Reply.isError])
  unfold emit
  apply Triple.ite
  · exact fun _ => (answers_write rfl (by simp [Reply.isError])).bind fun _ => hrest
  · exact fun _ => hrest

/-! ## Messages -/

/-- The tables after a `Close`. -/
def Session.closed (ofStatement : Bool) (name : Text) (s : Session) : Session :=
  if ofStatement then
    { s with
      statements := s.statements.erase name
      portals := s.portals.filter fun e => e.2.statement ≠ name }
  else { s with portals := s.portals.erase name }

/-- The statement that a `Bind` finds, unless it is skipped. -/
def Session.finds (s : Session) : Frontend → Option Prepared
  | .bind _ statement _ => if s.failed then none else s.statements.get statement
  | _ => none

/-- The one thing that a message does. -/
inductive Does (luck : Luck) : Frontend → Session → Session → Prop
  | nothing {m : Frontend} {s : Session} (hfinds : s.finds m = none) : Does luck m s s
  | asks {m : Frontend} {s s₁ : Session} {requests : List Request} (hfinds : s.finds m = none)
      (hasking : Asking requests s s₁) : Does luck m s s₁
  | parses {name sql : Text} {s s₁ : Session} {columns : List FieldDescription} {params : ℕ} {requests : List Request}
      (hfailed : s.failed = false) (hdescribes : s.describes luck = true) (hasking : Asking requests s s₁) :
      Does luck (.parse name sql) s
        { s₁ with statements := s₁.statements.insert name ⟨toJdbc sql, sql, columns, params⟩ }
  | binds {portal statement : Text} {sent : List Value} {s : Session} {prepared : Prepared}
      (hfinds : s.finds (.bind portal statement sent) = some prepared) :
      Does luck (.bind portal statement sent) s
        { s with
          portals := s.portals.insert portal
            ⟨statement, prepared.rewritten.order.map fun slot => (sent[slot]?).getD .null⟩ }
  | closes {ofStatement : Bool} {name : Text} {s : Session} :
      Does luck (.close ofStatement name) s (s.closed ofStatement name)
  | syncs {s : Session} : Does luck .sync s { s with failed := false }

/-- The session says that it is ready after its answers, and in which state. -/
structure Readied (simple : Bool) (s s' : Session) : Prop where
  told : ∃ new, s'.told = s.told ++ new ++ [.readyForQuery s'.status] ∧ (∀ r ∈ new, r.isReady = false) ∧
    ((∃ r ∈ new, r.isError = true) → simple = true ∨ s'.failed = true)
  failed : s.failed = true → s'.failed = true
  statements : s'.statements = s.statements
  portals : s'.portals = s.portals
  asked : s'.asked = s.asked

theorem Session.status_releaseIfIdle (s : Session) : s.releaseIfIdle.status = s.status := by
  unfold releaseIfIdle
  split
  · split
    case isTrue hrel =>
      have hidle := (SessionState.isReleasable_iff.mp hrel).2.2.2
      simp [status, SessionState.released, hidle]
    case isFalse => rfl
  · rfl

theorem Answering.unseen (h : Answering simple s₀ s) (h' : Unseen s s') : Answering simple s₀ s' where
  told := by
    rw [h'.told, h'.failed]
    exact h.told
  failed := by
    rw [h'.failed]
    exact h.failed
  statements := h'.statements.trans h.statements
  portals := h'.portals.trans h.portals
  asked := h'.asked.trans h.asked

theorem ready_readied :
    Triple (Answering simple s₀) ready (fun _ => Readied simple s₀) (Answering simple s₀) := by
  apply Triple.get_bind
  intro s hs
  have hreleased := hs.unseen (unseen_releaseIfIdle s)
  apply Triple.bind (Q := fun _ s' => s' = s.releaseIfIdle) (Triple.modified fun s' hs' => by rw [hs'])
  intro _
  apply Triple.write
  · rintro _ writes rfl
    obtain ⟨⟨new, htold, hnew, herrors⟩, hfailed, hstatements, hportals, hasked⟩ := hreleased
    refine ⟨⟨new, ?_, hnew, herrors⟩, hfailed, hstatements, hportals, hasked⟩
    show s.releaseIfIdle.told ++ [.readyForQuery s.status] =
      s₀.told ++ new ++ [.readyForQuery s.releaseIfIdle.status]
    rw [htold, s.status_releaseIfIdle]
  · rintro _ writes rfl
    exact hreleased.unseen ⟨rfl, rfl, rfl, rfl, rfl⟩

/-- What a message has led to, if the session is ready after it. -/
def Served (luck : Luck) (m : Frontend) (simple : Bool) (s s' : Session) : Prop :=
  ∃ s₁, Does luck m s s₁ ∧ Readied simple s₁ s'

/-- What a message has led to otherwise. -/
def Handled (luck : Luck) (m : Frontend) (simple : Bool) (s s' : Session) : Prop :=
  ∃ s₁, Does luck m s s₁ ∧ Answering simple s₁ s'

theorem Answers.start {c : Serve Unit} (hc : Answers simple s₁ c) :
    Triple (fun s' => s' = s₁) c (fun _ => Answering simple s₁) (Answering simple s₁) := by
  apply hc.pre
  rintro _ rfl
  exact .refl _ _

theorem Does.then_answers (h : Does luck m s s₁) {c : Serve Unit} (hc : Answers simple s₁ c) :
    Triple (fun s' => s' = s₁) c (fun _ => Handled luck m simple s) (Handled luck m simple s) :=
  hc.start.conseq (fun _ hs => hs) (fun _ _ hs => ⟨s₁, h, hs⟩) fun _ hs => ⟨s₁, h, hs⟩

theorem Does.then_ready (h : Does luck m s s₁) {c : Serve Unit} (hc : Answers simple s₁ c) :
    Triple (fun s' => s' = s₁) (do c; ready) (fun _ => Served luck m simple s) (Handled luck m simple s) := by
  apply Triple.bind (hc.start.conseq (fun _ hs => hs) (fun _ _ hs => hs) fun _ hs => ⟨s₁, h, hs⟩)
  exact fun _ => ready_readied.conseq (fun _ hs => hs) (fun _ _ hs => ⟨s₁, h, hs⟩) fun _ hs => ⟨s₁, h, hs⟩

theorem answers_report (e : AgentError) : Answers true s₀ (report e) := answers_write rfl fun _ => rfl

theorem simpleQuery_served (sql : Text) :
    Triple (fun s' => s' = s) (simpleQuery luck sql) (fun _ => Served luck (.query sql) true s)
      (Handled luck (.query sql) true s) := by
  unfold simpleQuery
  apply Triple.ite
  · exact fun _ => (Does.nothing rfl).then_ready (answers_write rfl fun _ => rfl)
  · intro _
    split
    case h_1 c hc =>
      apply Triple.bind ((control_asking luck c s).conseq (fun _ h => h) (fun _ _ h => h) (fun _ h => h.elim))
      intro r
      apply Triple.of_state
      intro s₁ hasking
      have hdoes : Does luck (.query sql) s s₁ := .asks rfl hasking
      cases r with
      | error e => exact hdoes.then_ready (answers_report e)
      | ok _ => exact hdoes.then_ready (answers_write rfl fun _ => rfl)
    case h_2 hc =>
      apply Triple.bind ((runSql_asking luck _ _ s).conseq (fun _ h => h) (fun _ _ h => h) (fun _ h => h.elim))
      intro r
      apply Triple.of_state
      intro s₁ hasking
      have hdoes : Does luck (.query sql) s s₁ := .asks rfl hasking
      cases r with
      | error e => exact hdoes.then_ready (answers_report e)
      | ok outcome => exact hdoes.then_ready (answers_emit _ _ _)

theorem parse_handled (name sql : Text) :
    Triple (fun s' => s' = s) (parse luck name sql) (fun _ => Handled luck (.parse name sql) false s)
      (Handled luck (.parse name sql) false s) := by
  apply Triple.get_bind
  rintro s rfl
  apply Triple.ite
  · exact fun _ => (Does.nothing rfl).then_answers (answers_pure _)
  · intro hgoes
    rw [Bool.not_eq_true] at hgoes
    apply Triple.bind ((agentDescribe_asking luck _ s).conseq (fun _ h => h) (fun _ _ h => h) (fun _ h => h.elim))
    intro r
    apply Triple.of_state
    rintro s₁ ⟨⟨requests, hasking⟩, hdescribes⟩
    cases r with
    | error e => exact (Does.asks rfl hasking).then_answers (answers_fail _ _)
    | ok described =>
        apply Triple.modify_bind
        exact (Does.parses hgoes (hdescribes _ rfl) hasking).then_answers (answers_write rfl (by simp [Reply.isError]))

theorem bind_handled (portal statement : Text) (sent : List Value) :
    Triple (fun s' => s' = s) (bind portal statement sent)
      (fun _ => Handled luck (.bind portal statement sent) false s)
      (Handled luck (.bind portal statement sent) false s) := by
  apply Triple.get_bind
  rintro s rfl
  apply Triple.ite
  · intro hskips
    have hfinds : s.finds (.bind portal statement sent) = none := if_pos hskips
    exact (Does.nothing hfinds).then_answers (answers_pure _)
  · intro hgoes
    split
    case h_1 hunknown =>
      have hfinds : s.finds (.bind portal statement sent) = none := (if_neg hgoes).trans hunknown
      exact (Does.nothing hfinds).then_answers (answers_fail _ _)
    case h_2 prepared hprepared =>
      dsimp only
      apply Triple.put_bind
      have hfinds : s.finds (.bind portal statement sent) = some prepared := (if_neg hgoes).trans hprepared
      exact (Does.binds hfinds).then_answers (answers_write rfl (by simp [Reply.isError]))

theorem describe_handled (ofStatement : Bool) (name : Text) :
    Triple (fun s' => s' = s) (describe ofStatement name)
      (fun _ => Handled luck (.describe ofStatement name) false s)
      (Handled luck (.describe ofStatement name) false s) := by
  have hrest : ∀ (s₀ : Session) (columns : List FieldDescription),
      Answers false s₀ (if columns.isEmpty then write .noData else write (.rowDescription columns)) :=
    fun _ _ => Triple.ite (fun _ => answers_write rfl (by simp [Reply.isError])) fun _ =>
      answers_write rfl (by simp [Reply.isError])
  apply Triple.get_bind
  rintro s rfl
  apply Triple.ite
  · exact fun _ => (Does.nothing rfl).then_answers (answers_pure _)
  · intro _
    dsimp only
    split
    · exact (Does.nothing rfl).then_answers (answers_fail _ _)
    · apply Triple.ite
      · intro _
        apply (Does.nothing rfl).then_answers
        exact (answers_write rfl (by simp [Reply.isError])).bind fun _ => hrest _ _
      · exact fun _ => (Does.nothing rfl).then_answers (hrest _ _)

theorem execute_handled (portal : Text) :
    Triple (fun s' => s' = s) (execute luck portal) (fun _ => Handled luck (.execute portal) false s)
      (Handled luck (.execute portal) false s) := by
  apply Triple.get_bind
  rintro s rfl
  apply Triple.ite
  · exact fun _ => (Does.nothing rfl).then_answers (answers_pure _)
  · intro _
    split
    · exact (Does.nothing rfl).then_answers (answers_fail _ _)
    case h_2 bound _ =>
      split
      · exact (Does.nothing rfl).then_answers (answers_fail _ _)
      case h_2 prepared _ =>
        split
        case h_1 c hc =>
          apply Triple.bind ((control_asking luck c s).conseq (fun _ h => h) (fun _ _ h => h) (fun _ h => h.elim))
          intro r
          apply Triple.of_state
          intro s₁ hasking
          have hdoes : Does luck (.execute portal) s s₁ := .asks rfl hasking
          cases r with
          | error e => exact hdoes.then_answers (answers_fail _ _)
          | ok _ => exact hdoes.then_answers (answers_write rfl (by simp [Reply.isError]))
        case h_2 =>
          apply Triple.bind ((runSql_asking luck _ _ s).conseq (fun _ h => h) (fun _ _ h => h) (fun _ h => h.elim))
          intro r
          apply Triple.of_state
          intro s₁ hasking
          have hdoes : Does luck (.execute portal) s s₁ := .asks rfl hasking
          cases r with
          | error e => exact hdoes.then_answers (answers_fail _ _)
          | ok outcome => exact hdoes.then_answers (answers_emit _ _ _)

theorem close_handled (ofStatement : Bool) (name : Text) :
    Triple (fun s' => s' = s) (close ofStatement name) (fun _ => Handled luck (.close ofStatement name) false s)
      (Handled luck (.close ofStatement name) false s) := by
  apply Triple.modify_bind
  exact Does.closes.then_answers (answers_write rfl (by simp [Reply.isError]))

theorem sync_served : Triple (fun s' => s' = s) sync (fun _ => Served luck .sync false s) (Handled luck .sync false s) := by
  apply Triple.modify_bind
  have hdoes : Does luck .sync s { s with failed := false } := .syncs
  have hnothing : Answers false { s with failed := false } (pure ()) := answers_pure ()
  exact hdoes.then_ready hnothing

/-- The messages after which a client waits for the session to be ready. -/
def Frontend.synchronizes : Frontend → Bool
  | .query _ => true
  | .sync => true
  | _ => false

/-- A simple query. -/
def Frontend.isQuery : Frontend → Bool
  | .query _ => true
  | _ => false

def Frontend.isClose : Frontend → Bool
  | .close _ _ => true
  | _ => false

/-- **What a message is answered.** -/
theorem onMessage_handled (luck : Luck) (hkind : ∀ tag, m ≠ .other tag) (s : Session) :
    Triple (fun s' => s' = s) (onMessage luck m)
      (fun _ s' => if m.synchronizes then Served luck m m.isQuery s s' else Handled luck m m.isQuery s s')
      (Handled luck m m.isQuery s) := by
  cases m with
  | query sql => exact simpleQuery_served sql
  | parse name sql => exact parse_handled name sql
  | bind portal statement sent => exact bind_handled portal statement sent
  | describe ofStatement name => exact describe_handled ofStatement name
  | execute portal => exact execute_handled portal
  | close ofStatement name => exact close_handled ofStatement name
  | sync => exact sync_served
  | flush => exact (Does.nothing rfl).then_answers (answers_pure _)
  | terminate => exact (Does.nothing rfl).then_answers (answers_pure _)
  | other tag => exact absurd rfl (hkind tag)

/-- The messages that look at the flag of an error. -/
def Frontend.looks : Frontend → Bool
  | .parse _ _ => true
  | .bind _ _ _ => true
  | .describe _ _ => true
  | .execute _ => true
  | _ => false

/-- After an error these messages do nothing. -/
theorem onMessage_skips (luck : Luck) (hlooks : m.looks = true) (hfailed : s.failed = true) :
    onMessage luck m s = .ok () s := by
  cases m with
  | parse name sql => simp only [onMessage, parse, bind_apply, get_apply, hfailed, if_true]; rfl
  | bind portal statement sent => simp only [onMessage, bind, bind_apply, get_apply, hfailed, if_true]; rfl
  | describe ofStatement name => simp only [onMessage, describe, bind_apply, get_apply, hfailed, if_true]; rfl
  | execute portal => simp only [onMessage, execute, bind_apply, get_apply, hfailed, if_true]; rfl
  | query sql => cases hlooks
  | close ofStatement name => cases hlooks
  | sync => cases hlooks
  | flush => cases hlooks
  | terminate => cases hlooks
  | other tag => cases hlooks

end Havuz.Jdbc
