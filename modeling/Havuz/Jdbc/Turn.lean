import Mathlib
import Havuz.Jdbc.Driver
import Havuz.Jdbc.Serve

/-!
# What a message does to the connection

A message makes at most one request to the agent and gives the connection back at most once, after it
(`onMessage_turn`). What it is answered and what is remembered of its statements does not matter for that.
-/

namespace Havuz.Jdbc

open Lib

variable {s s' s₀ s₁ : Session} {luck : Luck} {m : Frontend}

/-- The same connection, in the same state of the flow. -/
structure Alike (s s' : Session) : Prop where
  rules : s'.rules = s.rules
  flow : s'.flow = s.flow
  held : s'.held = s.held
  durable : s'.durable = s.durable
  handed : s'.handed = s.handed

theorem Alike.refl (s : Session) : Alike s s := ⟨rfl, rfl, rfl, rfl, rfl⟩

theorem Alike.trans (h : Alike s₀ s) (h' : Alike s s') : Alike s₀ s' :=
  ⟨h'.rules.trans h.rules, h'.flow.trans h.flow, h'.held.trans h.held, h'.durable.trans h.durable,
    h'.handed.trans h.handed⟩

theorem Alike.releaseIfIdle (h : Alike s s') : Alike s.releaseIfIdle s'.releaseIfIdle := by
  unfold Session.releaseIfIdle
  rw [h.held, h.flow, h.handed]
  split
  · split
    · exact ⟨h.rules, rfl, rfl, h.durable, rfl⟩
    · exact h
  · exact h

/-- The same connection, whatever is thought of it. -/
structure SameConn (s s' : Session) : Prop where
  held : s'.held.isSome = s.held.isSome
  conn : s'.conn = s.conn
  durable : s'.durable = s.durable
  handed : s'.handed = s.handed

theorem SameConn.refl (s : Session) : SameConn s s := ⟨rfl, rfl, rfl, rfl⟩

theorem SameConn.trans (h : SameConn s₀ s) (h' : SameConn s s') : SameConn s₀ s' :=
  ⟨h'.held.trans h.held, h'.conn.trans h.conn, h'.durable.trans h.durable, h'.handed.trans h.handed⟩

theorem Alike.sameConn (h : Alike s s') : SameConn s s' :=
  ⟨by rw [h.held], by rw [Session.conn, h.held, Session.conn], h.durable, h.handed⟩

theorem sameConn_poison (s : Session) : SameConn s s.poison := by
  refine ⟨by simp [Session.poison], ?_, rfl, rfl⟩
  unfold Session.poison Session.conn
  cases s.held <;> rfl

theorem sameConn_observeError (e : AgentError) (s : Session) : SameConn s (s.observeError e) := by
  have hflow : SameConn s (s.observeFlow .broken) := ⟨rfl, rfl, rfl, rfl⟩
  cases e with
  | database state text => exact .refl s
  | fault fault => exact hflow.trans (sameConn_poison _)
  | exhausted text => exact hflow.trans (sameConn_poison _)

/-! ## One request -/

/-- The connection of the session as the agent finds it. -/
def Session.jvm (s : Session) (luck : Luck) : Jvm := ⟨s.conn, s.durable, luck.throws⟩

theorem Session.on {R : Connection → ℕ → Prop} (h : R s.conn s.durable) : On R (s.jvm luck) := h

/-- The session with a connection, borrowed if it has none. -/
def Session.borrow (s : Session) : Session :=
  match s.held with
  | some _ => s
  | none => { s with held := some {} }

/-- The session has a connection, or one is free. -/
def Session.borrows (s : Session) (luck : Luck) : Bool := s.held.isSome || luck.exhausted.isNone

/-- The session after its connection has gone through something. -/
def Session.through (s : Session) (j : Jvm) : Session := s.after (s.held.getD {}) j

@[simp] theorem Session.conn_borrow (s : Session) : s.borrow.conn = s.conn := by
  unfold borrow
  split
  · rfl
  case h_2 h => simp [conn, h]

theorem Session.held_borrow (s : Session) : s.borrow.held = some (s.held.getD {}) := by
  unfold borrow
  split
  case h_1 h => simp [h]
  case h_2 h => simp [h]

theorem Session.borrow_handed (s : Session) : s.borrow.handed = s.handed := by
  unfold borrow
  split <;> rfl

theorem Session.borrow_flow (s : Session) : s.borrow.flow = s.flow := by
  unfold borrow
  split <;> rfl

theorem Session.borrow_durable (s : Session) : s.borrow.durable = s.durable := by
  unfold borrow
  split <;> rfl

@[simp] theorem Session.jvm_borrow (s : Session) : s.borrow.jvm luck = s.jvm luck := by
  unfold borrow
  split
  · rfl
  case h_2 h => simp [jvm, conn, h]

theorem Session.through_borrow (s : Session) (j : Jvm) : s.borrow.through j = s.through j := by
  unfold borrow
  split
  · rfl
  case h_2 h => simp [through, after, h]

/-- What can come of a request on the connection that is held. -/
inductive Called (luck : Luck) (request : Request) (s : Session) : Except AgentError Answer → Session → Prop
  | answered {answer : Answer} {j : Jvm} {s' : Session} (hlink : luck.link = .answered)
      (hj : handle luck request (s.jvm luck) = .ok answer j) (halike : Alike (s.through j) s') :
      Called luck request s (.ok answer) s'
  | refused {e : Thrown} {j : Jvm} {state : Option Text} {text : Text} {s' : Session}
      (hlink : luck.link = .answered) (hj : handle luck request (s.jvm luck) = .error e j)
      (halike : Alike (s.through j) s') : Called luck request s (.error (.database state text)) s'
  | lost {performed : Bool} {fault : Fault} {s' : Session} (hlink : luck.link = .lost performed fault)
      (halike : Alike (if performed then s.through (afterwards (handle luck request (s.jvm luck))) else s) s') :
      Called luck request s (.error (.fault fault)) s'

theorem Alike.after (h : Alike s s₁) {b : Backend} (hb : s.held = some b) (j : Jvm) :
    Alike (s.through j) (s₁.after b j) :=
  ⟨h.rules, h.flow, by simp [Session.through, Session.after, hb], rfl, h.handed⟩

theorem call_called (luck : Luck) (request : Request) (hheld : s.held.isSome = true) :
    Triple (fun s' => s' = s) (call luck request) (fun r s' => Called luck request s r s') (fun _ => False) := by
  refine Triple.at_state ?_
  obtain ⟨b, hb⟩ := Option.isSome_iff_exists.mp hheld
  have hjvm : (⟨b.conn, s.durable, luck.throws⟩ : Jvm) = s.jvm luck := by simp [Session.jvm, Session.conn, hb]
  have hasked : Alike s { s with held := some b, asked := s.asked ++ [request] } := ⟨rfl, rfl, hb.symm, rfl, rfl⟩
  simp only [call, bind_apply, get_apply, modify_apply, hb, hjvm]
  cases hj : handle luck request (s.jvm luck) with
  | ok answer j =>
      cases hlink : luck.link with
      | answered => exact .answered hlink hj (hasked.after hb j)
      | lost performed fault =>
          cases performed with
          | true => exact .lost hlink (by rw [hj]; exact hasked.after hb j)
          | false => exact .lost hlink hasked
  | error e j =>
      cases hlink : luck.link with
      | answered => exact .refused hlink hj (hasked.after hb j)
      | lost performed fault =>
          cases performed with
          | true => exact .lost hlink (by rw [hj]; exact hasked.after hb j)
          | false => exact .lost hlink hasked

theorem backend_borrow (luck : Luck) (s : Session) :
    Triple (fun s' => s' = s) (backend luck)
      (fun r s' => (r = .ok () ∧ s' = s.borrow ∧ s.borrows luck = true) ∨
        ((∃ text, r = .error (.exhausted text)) ∧ s' = s ∧ s.borrows luck = false)) (fun _ => False) := by
  refine Triple.at_state ?_
  simp only [backend, bind_apply, get_apply]
  cases hheld : s.held with
  | some b => exact .inl ⟨rfl, by simp [Session.borrow, hheld], by simp [Session.borrows, hheld]⟩
  | none =>
      cases hexhausted : luck.exhausted with
      | none =>
          exact .inl ⟨rfl, by simp [Session.borrow, hheld], by simp [Session.borrows, hexhausted]⟩
      | some text => exact .inr ⟨⟨text, rfl⟩, rfl, by simp [Session.borrows, hheld, hexhausted]⟩

/-- What comes of a request, with what an answer to it changes. -/
inductive Made (luck : Luck) (request : Request) (fold : Answer → Session → Session) (s : Session) : Session → Prop
  | exhausted : Made luck request fold s s
  | answered {answer : Answer} {s' : Session} (hborrows : s.borrows luck = true)
      (hcalled : Called luck request s.borrow (.ok answer) s') : Made luck request fold s (fold answer s')
  | failed {e : AgentError} {s' : Session} (hborrows : s.borrows luck = true)
      (hcalled : Called luck request s.borrow (.error e) s') : Made luck request fold s (s'.observeError e)

/-- The agent performs the request, whether its answer arrives or not. -/
def Link.performs : Link → Bool
  | .answered => true
  | .lost performed _ => performed

/-- What a request leads to, whether an answer comes or not. -/
theorem Called.leads {request : Request} {P : Jvm → Prop} {R : Connection → ℕ → Prop} {r : Except AgentError Answer}
    (h : Triple P (handle luck request) (fun _ => On R) (On R)) (hs : P (s.jvm luck))
    (hmissed : luck.link.performs = false → R s.conn s.durable) (hcalled : Called luck request s r s') :
    R s'.conn s'.durable := by
  cases hcalled with
  | answered hlink hj halike =>
      rw [Session.conn, halike.held, halike.durable]
      exact h.ok hs hj
  | refused hlink hj halike =>
      rw [Session.conn, halike.held, halike.durable]
      exact h.error hs hj
  | @lost performed fault _ hlink halike =>
      rw [Session.conn, halike.held, halike.durable]
      cases performed with
      | true => exact afterwards_on h (fun _ _ hj => hj) hs
      | false => exact hmissed (by rw [hlink]; rfl)

theorem Made.keeps {request : Request} {R : Connection → ℕ → Prop} {fold : Answer → Session → Session}
    (hkeeps : Triple (On R) (handle luck request) (fun _ => On R) (On R)) (hs : R s.conn s.durable)
    (hfold : ∀ answer s', (fold answer s').conn = s'.conn ∧ (fold answer s').durable = s'.durable)
    (h : Made luck request fold s s') : R s'.conn s'.durable := by
  have hborrow : R s.borrow.conn s.borrow.durable := by
    rw [Session.conn_borrow, Session.borrow_durable]
    exact hs
  cases h with
  | exhausted => exact hs
  | answered _ hcalled =>
      rw [(hfold _ _).1, (hfold _ _).2]
      exact hcalled.leads hkeeps hborrow fun _ => hborrow
  | @failed e s₁ _ hcalled =>
      have hcall := hcalled.leads hkeeps hborrow fun _ => hborrow
      rw [← (sameConn_observeError e s₁).conn, ← (sameConn_observeError e s₁).durable] at hcall
      exact hcall

theorem runSql_made (luck : Luck) (sql : Text) (values : List Value) (s : Session) :
    Triple (fun s' => s' = s) (runSql luck sql values)
      (fun _ s' => Made luck (.execute sql values) (fun a => Session.observe sql a.outcome.inTransaction) s s')
      (fun _ => False) := by
  unfold runSql
  apply (backend_borrow luck s).bind
  intro r
  apply Triple.of_state
  rintro s₁ (⟨rfl, rfl, hborrows⟩ | ⟨⟨text, rfl⟩, rfl, -⟩)
  · apply (call_called luck _ (by rw [Session.held_borrow]; rfl)).bind
    rintro (e | answer)
    · exact Triple.modify_pure fun _ hcalled => .failed hborrows hcalled
    · exact Triple.modify_pure fun _ hcalled => Made.answered hborrows hcalled
  · exact Triple.pure fun _ h => h ▸ .exhausted

theorem agentDescribe_made (luck : Luck) (sql : Text) (s : Session) :
    Triple (fun s' => s' = s) (agentDescribe luck sql)
      (fun _ s' => Made luck (.describe sql) (fun _ => id) s s') (fun _ => False) := by
  unfold agentDescribe
  apply (backend_borrow luck s).bind
  intro r
  apply Triple.of_state
  rintro s₁ (⟨rfl, rfl, hborrows⟩ | ⟨⟨text, rfl⟩, rfl, -⟩)
  · apply (call_called luck _ (by rw [Session.held_borrow]; rfl)).bind
    rintro (e | answer)
    · exact Triple.modify_pure fun _ hcalled => .failed hborrows hcalled
    · exact Triple.pure fun _ hcalled => Made.answered hborrows hcalled
  · exact Triple.pure fun _ h => h ▸ .exhausted

theorem control_made (luck : Luck) (c : TransactionControl) (s : Session) :
    Triple (fun s' => s' = s) (control luck c)
      (fun _ s' => (s.held = none ∧ s' = s.observeFlow .idle) ∨
        Made luck c.request (fun a => Session.observeFlow (if a.inTransaction then .inTransaction else .idle)) s s')
      (fun _ => False) := by
  unfold control
  apply Triple.get_bind
  rintro s' rfl
  apply Triple.ite
  · intro hnone
    refine Triple.modify_pure fun s' hs' => .inl ⟨?_, congrArg _ hs'⟩
    rw [Bool.and_eq_true, Option.isNone_iff_eq_none] at hnone
    exact hnone.1
  · intro _
    apply (backend_borrow luck s').bind
    intro r
    apply Triple.of_state
    rintro s₁ (⟨rfl, rfl, hborrows⟩ | ⟨⟨text, rfl⟩, rfl, -⟩)
    · apply (call_called luck _ (by rw [Session.held_borrow]; rfl)).bind
      rintro (e | answer)
      · exact Triple.modify_pure fun _ hcalled => .inr (.failed hborrows hcalled)
      · exact Triple.modify_pure fun _ hcalled => .inr (Made.answered hborrows hcalled)
    · exact Triple.pure fun _ h => .inr (h ▸ .exhausted)

/-! ## What is written -/

/-- A command that leaves the connection alone. -/
def Keeps (s₀ : Session) {α : Type} (c : Serve α) : Prop := Triple (Alike s₀) c (fun _ => Alike s₀) (Alike s₀)

theorem keeps_modify {f : Session → Session} (h : ∀ s, Alike s (f s)) : Keeps s₀ (modify f) :=
  Triple.modified fun s hs => hs.trans (h s)

theorem keeps_write (reply : Reply) : Keeps s₀ (write reply) := by
  intro s hs
  cases hw : s.writes with
  | nil =>
      simp only [write, hw]
      exact hs.trans ⟨rfl, rfl, rfl, rfl, rfl⟩
  | cons fails rest =>
      cases fails <;> simp only [write, hw] <;> exact hs.trans ⟨rfl, rfl, rfl, rfl, rfl⟩

theorem Keeps.bind {α β : Type} {c : Serve α} {f : α → Serve β} (hc : Keeps s₀ c) (hf : ∀ a, Keeps s₀ (f a)) :
    Keeps s₀ (c >>= f) :=
  Triple.bind hc hf

theorem keeps_pure {α : Type} (a : α) : Keeps s₀ (pure a) := Triple.pure fun _ hs => hs

theorem keeps_rows (rows : List (List (Option Bytes))) : Keeps s₀ (rows.forM fun row => write (.dataRow row)) := by
  induction rows with
  | nil => exact keeps_pure _
  | cons row rows ih => exact (keeps_write _).bind fun _ => ih

theorem keeps_emit (sql : Text) (outcome : Outcome) (describe : Bool) : Keeps s₀ (emit sql outcome describe) := by
  have hrest : Keeps s₀ (do
      outcome.rows.forM fun row => write (.dataRow row)
      write (.completed sql outcome.rows.length outcome.updateCount)) :=
    (keeps_rows _).bind fun _ => keeps_write _
  unfold emit
  apply Triple.ite
  · exact fun _ => (keeps_write _).bind fun _ => hrest
  · exact fun _ => hrest

theorem keeps_fail (code message : Text) : Keeps s₀ (fail code message) := by
  unfold fail
  refine Keeps.bind (keeps_modify ?_) fun _ => keeps_write _
  exact fun _ => ⟨rfl, rfl, rfl, rfl, rfl⟩

theorem keeps_report (e : AgentError) : Keeps s₀ (report e) := keeps_write _

theorem keeps_close (ofStatement : Bool) (name : Text) : Keeps s₀ (close ofStatement name) := by
  unfold close
  refine Keeps.bind (keeps_modify ?_) fun _ => keeps_write _
  intro s
  split <;> exact ⟨rfl, rfl, rfl, rfl, rfl⟩

theorem keeps_bind (portal statement : Text) (sent : List Value) : Keeps s₀ (bind portal statement sent) := by
  apply Triple.get_bind
  intro s hs
  have hkeep : ∀ s', s' = s → Alike s₀ s' := fun _ h => h ▸ hs
  apply Triple.ite
  · exact fun _ => Triple.pure hkeep
  · intro _
    split
    · exact (keeps_fail _ _).pre hkeep
    · dsimp only
      refine Triple.bind (Triple.put (Q := fun _ => Alike s₀) ?_) fun _ => keeps_write _
      exact fun _ _ => hs.trans ⟨rfl, rfl, rfl, rfl, rfl⟩

theorem keeps_describe (ofStatement : Bool) (name : Text) : Keeps s₀ (describe ofStatement name) := by
  apply Triple.get_bind
  intro s hs
  have hkeep : ∀ s', s' = s → Alike s₀ s' := fun _ h => h ▸ hs
  have hrest : ∀ columns : List FieldDescription,
      Keeps s₀ (if columns.isEmpty then write .noData else write (.rowDescription columns)) :=
    fun columns => Triple.ite (fun _ => keeps_write _) fun _ => keeps_write _
  apply Triple.ite
  · exact fun _ => Triple.pure hkeep
  · intro _
    dsimp only
    split
    · exact (keeps_fail _ _).pre hkeep
    · apply Triple.pre _ hkeep
      apply Triple.ite
      · exact fun _ => (keeps_write _).bind fun _ => hrest _
      · exact fun _ => hrest _

/-! ## A message -/

/-- What a message makes of the session by its request. -/
inductive Asks (luck : Luck) (m : Frontend) (s : Session) : Session → Prop
  | nothing : Asks luck m s s
  | runs {sql : Text} {values : List Value} {s₁ : Session} (htext : s.text m = some sql)
      (hmade : Made luck (.execute sql values) (fun a => Session.observe sql a.outcome.inTransaction) s s₁) :
      Asks luck m s s₁
  | controls {c : TransactionControl} {s₁ : Session} (hcontrol : s.controls m = some c)
      (hmade : Made luck c.request
        (fun a => Session.observeFlow (if a.inTransaction then .inTransaction else .idle)) s s₁) : Asks luck m s s₁
  /-- There is no transaction to end. -/
  | idles (hheld : s.held = none) : Asks luck m s (s.observeFlow .idle)
  | describes {sql : Text} {s₁ : Session} (hmade : Made luck (.describe sql) (fun _ => id) s s₁) : Asks luck m s s₁

/-- What a message makes of the session: its request, and then the connection may be given back. -/
def Turn (luck : Luck) (m : Frontend) (s s' : Session) : Prop :=
  ∃ s₁, Asks luck m s s₁ ∧ (Alike s₁ s' ∨ Alike s₁.releaseIfIdle s')

theorem ready_releases : Triple (Alike s₀) ready (fun _ => Alike s₀.releaseIfIdle) (Alike s₀.releaseIfIdle) := by
  intro s hs
  have hreleased : Keeps s₀.releaseIfIdle
      (write (.readyForQuery (if s.flow.inTransaction then TransactionStatus.inTransaction else .idle))) :=
    keeps_write _
  exact hreleased s.releaseIfIdle hs.releaseIfIdle

theorem Keeps.start {c : Serve Unit} (hc : Keeps s₁ c) :
    Triple (fun s' => s' = s₁) c (fun _ => Alike s₁) (Alike s₁) := by
  apply hc.pre
  rintro _ rfl
  exact .refl _

theorem Asks.then_keeps (h : Asks luck m s s₁) {c : Serve Unit} (hc : Keeps s₁ c) :
    Triple (fun s' => s' = s₁) c (fun _ => Turn luck m s) (Turn luck m s) :=
  hc.start.conseq (fun _ hs => hs) (fun _ _ hs => ⟨s₁, h, .inl hs⟩) fun _ hs => ⟨s₁, h, .inl hs⟩

theorem Asks.then_ready (h : Asks luck m s s₁) {c : Serve Unit} (hc : Keeps s₁ c) :
    Triple (fun s' => s' = s₁) (do c; ready) (fun _ => Turn luck m s) (Turn luck m s) := by
  apply Triple.bind (hc.start.conseq (fun _ hs => hs) (fun _ _ hs => hs) fun _ hs => ⟨s₁, h, .inl hs⟩)
  exact fun _ => ready_releases.conseq (fun _ hs => hs) (fun _ _ hs => ⟨s₁, h, .inr hs⟩) fun _ hs => ⟨s₁, h, .inr hs⟩

/-- A request of the text of a message, or of its transaction control. -/
theorem control_asks {c : TransactionControl} (hcontrol : s.controls m = some c) :
    Triple (fun s' => s' = s) (control luck c) (fun _ => Asks luck m s) (fun _ => False) := by
  apply (control_made luck c s).post
  rintro - s₁ (⟨hheld, rfl⟩ | hmade)
  · exact .idles hheld
  · exact .controls hcontrol hmade

theorem runSql_asks {sql : Text} {values : List Value} (htext : s.text m = some sql) :
    Triple (fun s' => s' = s) (runSql luck sql values) (fun _ => Asks luck m s) (fun _ => False) :=
  (runSql_made luck sql values s).post fun _ _ hmade => .runs htext hmade

theorem simpleQuery_turn (sql : Text) :
    Triple (fun s' => s' = s) (simpleQuery luck sql) (fun _ => Turn luck (.query sql) s)
      (Turn luck (.query sql) s) := by
  unfold simpleQuery
  apply Triple.ite
  · exact fun _ => Asks.nothing.then_ready (keeps_write _)
  · intro hsome
    have hruns : s.runs (.query sql) = some (sql, (toJdbc sql).sql) := if_neg hsome
    split
    case h_1 c hc =>
      have hcontrol : s.controls (.query sql) = some c := by rw [Session.controls, hruns, Option.bind_some, hc]
      apply Triple.bind ((control_asks hcontrol).conseq (fun _ h => h) (fun _ _ h => h) (fun _ h => h.elim))
      intro r
      apply Triple.of_state
      intro s₁ hasks
      cases r with
      | error e => exact hasks.then_ready (keeps_report e)
      | ok _ => exact hasks.then_ready (keeps_write _)
    case h_2 hc =>
      have htext : s.text (.query sql) = some (toJdbc sql).sql := by
        rw [Session.text, hruns, Option.bind_some, hc]
        rfl
      apply Triple.bind ((runSql_asks htext).conseq (fun _ h => h) (fun _ _ h => h) (fun _ h => h.elim))
      intro r
      apply Triple.of_state
      intro s₁ hasks
      cases r with
      | error e => exact hasks.then_ready (keeps_report e)
      | ok outcome => exact hasks.then_ready (keeps_emit _ _ _)

theorem parse_turn (name sql : Text) :
    Triple (fun s' => s' = s) (parse luck name sql) (fun _ => Turn luck (.parse name sql) s)
      (Turn luck (.parse name sql) s) := by
  apply Triple.get_bind
  rintro s rfl
  apply Triple.ite
  · exact fun _ => Asks.nothing.then_keeps (keeps_pure _)
  · intro _
    apply Triple.bind ((agentDescribe_made luck _ s).conseq (fun _ h => h) (fun _ _ h => h) (fun _ h => h.elim))
    intro r
    apply Triple.of_state
    intro s₁ hmade
    cases r with
    | error e => exact (Asks.describes hmade).then_keeps (keeps_fail _ _)
    | ok described =>
        apply (Asks.describes hmade).then_keeps
        refine Keeps.bind (keeps_modify ?_) fun _ => keeps_write _
        exact fun _ => ⟨rfl, rfl, rfl, rfl, rfl⟩

theorem execute_turn (portal : Text) :
    Triple (fun s' => s' = s) (execute luck portal) (fun _ => Turn luck (.execute portal) s)
      (Turn luck (.execute portal) s) := by
  apply Triple.get_bind
  rintro s rfl
  apply Triple.ite
  · exact fun _ => Asks.nothing.then_keeps (keeps_pure _)
  · intro hgoes
    split
    · exact Asks.nothing.then_keeps (keeps_fail _ _)
    case h_2 bound hbound =>
      split
      · exact Asks.nothing.then_keeps (keeps_fail _ _)
      case h_2 prepared hprepared =>
        have hruns : s.runs (.execute portal) = some (prepared.original, prepared.rewritten.sql) := by
          rw [Session.runs, if_neg hgoes, hbound, Option.bind_eq_bind, Option.bind_some, hprepared]
          rfl
        split
        case h_1 c hc =>
          have hcontrol : s.controls (.execute portal) = some c := by
            rw [Session.controls, hruns, Option.bind_some, hc]
          apply Triple.bind ((control_asks hcontrol).conseq (fun _ h => h) (fun _ _ h => h) (fun _ h => h.elim))
          intro r
          apply Triple.of_state
          intro s₁ hasks
          cases r with
          | error e => exact hasks.then_keeps (keeps_fail _ _)
          | ok _ => exact hasks.then_keeps (keeps_write _)
        case h_2 hc =>
          have htext : s.text (.execute portal) = some prepared.rewritten.sql := by
            rw [Session.text, hruns, Option.bind_some, hc]
            rfl
          apply Triple.bind ((runSql_asks htext).conseq (fun _ h => h) (fun _ _ h => h) (fun _ h => h.elim))
          intro r
          apply Triple.of_state
          intro s₁ hasks
          cases r with
          | error e => exact hasks.then_keeps (keeps_fail _ _)
          | ok outcome => exact hasks.then_keeps (keeps_emit _ _ _)

/-- **What a message does to the connection.** It makes one request at most, and then the connection may be
given back, whether the session goes on or stops. -/
theorem onMessage_turn (luck : Luck) (m : Frontend) (s : Session) :
    Triple (fun s' => s' = s) (onMessage luck m) (fun _ => Turn luck m s) (Turn luck m s) := by
  have hsync : Keeps s (modify fun s => { s with failed := false } : Serve Unit) :=
    keeps_modify fun _ => ⟨rfl, rfl, rfl, rfl, rfl⟩
  cases m with
  | query sql => exact simpleQuery_turn sql
  | parse name sql => exact parse_turn name sql
  | bind portal statement sent => exact Asks.nothing.then_keeps (keeps_bind _ _ _)
  | describe ofStatement name => exact Asks.nothing.then_keeps (keeps_describe _ _)
  | execute portal => exact execute_turn portal
  | close ofStatement name => exact Asks.nothing.then_keeps (keeps_close _ _)
  | sync => exact Asks.nothing.then_ready hsync
  | flush => exact Asks.nothing.then_keeps (keeps_pure _)
  | terminate => exact Asks.nothing.then_keeps (keeps_pure _)
  | other tag =>
      have hfail : Keeps s (do
          fail Sqlstate.protocolViolation ("unsupported message '".toList ++ tag :: "'".toList)
          modify fun s => { s with failed := false }) :=
        (keeps_fail _ _).bind fun _ => hsync
      rw [onMessage, sync, ← bind_assoc]
      exact Asks.nothing.then_ready hfail

/-! ## The end of a session -/

/-- What a request leaves of the connection, if all that is known is that it was made. -/
def Tried (luck : Luck) (request : Request) (s s' : Session) : Prop :=
  SameConn s s' ∨ SameConn (s.through (afterwards (handle luck request (s.jvm luck)))) s'

theorem Called.tried {request : Request} {r : Except AgentError Answer} (h : Called luck request s r s') :
    Tried luck request s s' := by
  cases h with
  | answered hlink hj halike => exact .inr (by rw [hj]; exact halike.sameConn)
  | refused hlink hj halike => exact .inr (by rw [hj]; exact halike.sameConn)
  | @lost performed fault _ hlink halike =>
      cases performed with
      | true => exact .inr halike.sameConn
      | false => exact .inl halike.sameConn

theorem Tried.keeps {request : Request} {R : Connection → ℕ → Prop}
    (hkeeps : Triple (On R) (handle luck request) (fun _ => On R) (On R)) (hs : R s.conn s.durable)
    (h : Tried luck request s s') : R s'.conn s'.durable := by
  obtain hsame | hsame := h
  · rw [hsame.conn, hsame.durable]
    exact hs
  · rw [hsame.conn, hsame.durable]
    exact afterwards_on hkeeps (fun _ _ hj => hj) (Session.on hs)

theorem Tried.sameConn {request : Request} (h : Tried luck request s s₁) (h' : SameConn s₁ s') :
    Tried luck request s s' :=
  h.imp (fun hs => hs.trans h') fun hs => hs.trans h'

theorem abandon_tried (luck : Luck) (s : Session) :
    Triple (fun s' => s' = s) (abandon luck) (fun _ => Tried luck .rollback s) (fun _ => False) := by
  apply Triple.get_bind
  rintro s rfl
  apply Triple.ite
  · intro hheld
    apply (call_called luck .rollback hheld).bind
    rintro (e | answer)
    · exact Triple.modified fun s' hcalled =>
        hcalled.tried.sameConn ((sameConn_poison s').trans ⟨rfl, rfl, rfl, rfl⟩)
    · exact Triple.modified fun s' hcalled => hcalled.tried.sameConn ⟨rfl, rfl, rfl, rfl⟩
  · exact fun _ => Triple.pure fun s' hs' => .inl (hs' ▸ .refl _)

/-- Whether the session returned or stopped, its world goes on with it. -/
theorem World.after_session {α : Type} {c : Serve α} {P : Session → Prop} {w : World} {returned stopped : Phase}
    (h : Triple (fun s' => s' = s) c (fun _ => P) P) : P (w.after (c s) returned stopped).session := by
  have hresult := h s rfl
  unfold World.after
  cases hc : c s with
  | ok a s' => rwa [hc] at hresult
  | error e s' => rwa [hc] at hresult

theorem World.giveBack_ok (w : World) (clean retire : Bool) (s : Session) :
    (w.giveBack (.ok clean s) retire).session.handed = s.handed ∧
      (w.giveBack (.ok clean s) retire).phase ≠ .serving := by
  simp only [giveBack]
  split
  · exact ⟨rfl, by simp⟩
  · split
    · exact ⟨rfl, by simp⟩
    · exact ⟨rfl, by simp⟩

/-- What recycling makes of the connection: it is clean only if it was reset. -/
inductive Recycled (luck : Luck) (s : Session) : Option Text → Bool → Session → Prop
  | discarded {s' : Session} (hconn : SameConn s s') : Recycled luck s none false s'
  | reset {sql : Text} {r : Except AgentError Answer} {clean : Bool} {s₀ s₁ s' : Session} (hstart : SameConn s s₀)
      (hcalled : Called luck (.reset sql) s₀ r s₁) (hclean : clean = true → ∃ answer, r = .ok answer)
      (hend : SameConn s₁ s') : Recycled luck s (some sql) clean s'

theorem recycle_recycled (resetQuery : Option Text) (failed : Bool) (luck : Luck) (hheld : s.held.isSome = true) :
    Triple (fun s' => s' = s) (recycle resetQuery failed luck) (fun clean => Recycled luck s resetQuery clean)
      (fun _ => False) := by
  have hrest : Triple (SameConn s) (recycle resetQuery false luck)
      (fun clean => Recycled luck s resetQuery clean) (fun _ => False) := by
    unfold recycle
    apply Triple.ite
    · exact fun h => absurd h Bool.false_ne_true
    intro _
    split
    · exact Triple.pure fun s' hs' => .discarded hs'
    case h_2 sql =>
      apply Triple.of_state
      intro s₀ hstart
      apply (call_called luck _ (hstart.held.trans hheld)).bind
      rintro (e | answer)
      · exact Triple.modify_pure fun s₁ hcalled => .reset hstart hcalled (by simp) (sameConn_poison s₁)
      · apply Triple.ite
        · intro _
          exact Triple.modify_pure fun s₁ hcalled =>
            .reset hstart hcalled (fun _ => ⟨answer, rfl⟩) (sameConn_poison s₁)
        · intro _
          exact Triple.pure fun s₁ hcalled => .reset hstart hcalled (fun _ => ⟨answer, rfl⟩) (.refl _)
  cases failed with
  | true =>
      refine Triple.bind (Triple.modified (Q := fun _ => SameConn s) ?_) fun _ => hrest
      rintro _ rfl
      exact sameConn_poison _
  | false =>
      apply hrest.pre
      rintro _ rfl
      exact .refl _

end Havuz.Jdbc
