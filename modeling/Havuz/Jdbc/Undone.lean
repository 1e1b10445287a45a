import Mathlib
import Havuz.Jdbc.Clean

/-!
# What was not committed is undone

A transaction that its client did not commit is to be rolled back (`reset` in `Session.java`). Whoever ends a
session inside one rolls it back if there is a reset query and the agent performs it; a connection that is
closed instead is left to the driver. `Undone` excludes that, and then nothing becomes durable but by a `COMMIT`
of the client (`nothing_committed_unasked`).
-/

namespace Havuz.Jdbc

open Lib

variable {s s' s₁ : Session} {luck : Luck} {m : Frontend} {request : Request} {sql : Text} {w : World} {e : Event}

/-! ## The condition -/

/-- A `BEGIN` that took effect is not reported as failed. -/
def Session.begins (s : Session) (luck : Luck) (m : Frontend) : Prop :=
  s.controls m = some .begin → mayShare s.flow = true → s.reaches luck = true → s.conn.autoCommit = true →
    calm 2 luck.throws = true → calm 3 luck.throws = true

instance (s : Session) (luck : Luck) (m : Frontend) : Decidable (s.begins luck m) := by
  unfold Session.begins
  infer_instance

/-- Nothing is left to undo, or there is a reset query, and its request reaches the agent and rolls back. -/
def World.undoes (w : World) (luck : Luck) : Prop :=
  w.session.conn.pending = 0 ∨
    w.resetQuery.isSome = true ∧ w.session.conn.closed = false ∧ luck.link.performs = true ∧ calm 2 luck.throws = true

instance (w : World) (luck : Luck) : Decidable (w.undoes luck) := by
  unfold World.undoes
  infer_instance

/-- The condition on a run. -/
def Undone (w : World) : Event → Prop
  | .message m luck _ => w.phase = .serving → w.session.begins luck m
  | .recycle luck _ => w.undoes luck
  | .shutdown _ => w.session.conn.pending = 0
  | _ => True

instance (w : World) (e : Event) : Decidable (Undone w e) :=
  match e with
  | .message m luck _ => inferInstanceAs (Decidable (w.phase = .serving → w.session.begins luck m))
  | .recycle luck _ => inferInstanceAs (Decidable (w.undoes luck))
  | .shutdown _ => inferInstanceAs (Decidable (w.session.conn.pending = 0))
  | .hangUp | .kick | .idleTimeout .. | .close .. => inferInstanceAs (Decidable True)

/-- The client asks for what is not durable to be made durable: by a `COMMIT` that havuz performs, or by one in a
text that the database performs. -/
def Asked (w : World) : Event → Prop
  | .message m luck _ =>
      w.session.controls m = some .commit ∨ (w.session.text m).isSome = true ∧ Statement.commits ∈ luck.ran
  | _ => False

/-! ## What requests make durable -/

theorem Jvm.settled_rollback {d : ℕ} {j : Jvm} (hd : j.durable = d) :
    On (fun c d' => d' = d ∧ c.pending = 0) j.rollback := by
  refine ⟨hd, ?_⟩
  simp only [rollback, Connection.pending]
  cases j.conn.tx <;> rfl

/-- Autocommit is switched on after a rollback, when there is nothing to commit. -/
theorem Jvm.settled_setAutoCommit {d : ℕ} {j : Jvm} (hj : On (fun c d' => d' = d ∧ c.pending = 0) j) :
    On (fun c d' => d' = d ∧ c.tx = none) (j.setAutoCommit true) := by
  obtain ⟨hd, hpending⟩ := hj
  cases htx : j.conn.tx with
  | none =>
      simp only [setAutoCommit, htx]
      exact ⟨hd, htx⟩
  | some n =>
      rw [Connection.pending, htx, Option.getD_some] at hpending
      simp only [setAutoCommit, htx, On, hpending]
      exact ⟨hd, trivial⟩

theorem Connection.pending_of_none {c : Connection} (h : c.tx = none) : c.pending = 0 := by
  rw [pending, h]
  rfl

theorem Connection.none_of_autoCommit {c : Connection} (h : c.autoCommit = true) : c.tx = none :=
  Option.isNone_iff_eq_none.mp h

/-- Nothing becomes durable by a request that does not commit. -/
theorem plain_durable {d : ℕ} (luck : Luck) (request : Request) (hplain : request.plain = true) (hcommit : request ≠ .commit) :
    Triple (On fun _ d' => d' = d) (handle luck request) (fun _ => On fun _ d' => d' = d) (On fun _ d' => d' = d) := by
  have hbegin : ∀ j : Jvm, On (fun _ d' => d' = d) j → j.conn.autoCommit = true →
      On (fun _ d' => d' = d) (j.setAutoCommit false) := by
    intro j hj hon
    simp only [Jvm.setAutoCommit, Connection.none_of_autoCommit hon]
    exact hj
  have hset : ∀ j : Jvm, On (fun c d' => d' = d ∧ c.pending = 0) j →
      On (fun _ d' => d' = d) (j.setAutoCommit true) := fun _ hj => (Jvm.settled_setAutoCommit hj).1
  apply Triple.post (plain_on hplain (fun _ => hbegin) (fun h => absurd h hcommit)
    (fun _ _ hj => Jvm.settled_rollback hj) hset fun _ hj => hj.1)
  exact fun _ _ h => h.1

/-- Outside a transaction nothing is to be made durable. -/
theorem perform_durable {d : ℕ} {statement : Statement} {j : Jvm} (hj : On (fun c d' => d' = d ∧ c.tx = none) j) :
    On (fun c d' => d' = d ∧ c.tx = none) (j.perform statement) := by
  obtain ⟨hd, htx⟩ := hj
  cases statement with
  | work leaves => exact ⟨hd, by simp [Jvm.perform, htx]⟩
  | opens => exact ⟨hd, htx⟩
  | commits =>
      refine ⟨?_, by simp [Jvm.perform, Jvm.commit, htx]⟩
      simp only [Jvm.perform, Jvm.commit, Connection.pending, htx]
      exact hd
  | rollsBack => exact ⟨hd, by simp [Jvm.perform, Jvm.rollback, htx]⟩

/-- A text without a `COMMIT` makes nothing durable. -/
theorem execute_durable {d : ℕ} {values : List Value} (hran : Statement.commits ∉ luck.ran) :
    Triple (On fun _ d' => d' = d) (handle luck (.execute sql values)) (fun _ => On fun _ d' => d' = d)
      (On fun _ d' => d' = d) := by
  have hperform : ∀ statement ∈ luck.ran, ∀ j : Jvm, On (fun _ d' => d' = d) j →
      On (fun _ d' => d' = d) (j.perform statement) := by
    intro statement hmem j hj
    cases statement with
    | work leaves => exact hj
    | opens => exact hj
    | commits => exact absurd hmem hran
    | rollsBack => exact hj
  exact (execute_request_on hperform).post fun _ _ h => h.1

/-! ## A reset -/

section Reset

variable {d : ℕ}

/-- A reset that succeeds leaves no transaction, and one that fails makes nothing durable. What was settled
before stays so. -/
theorem reset_settles {K : Connection → Prop} (hK : ∀ c : Connection, c.pending = 0 → K c) :
    Triple (On fun c d' => d' = d ∧ K c) (handle luck (.reset sql)) (fun _ => On fun c d' => d' = d ∧ c.tx = none)
      (On fun c d' => d' = d ∧ K c) := by
  have hnone : ∀ j : Jvm, On (fun c d' => d' = d ∧ c.tx = none) j → On (fun c d' => d' = d ∧ K c) j :=
    fun _ hj => ⟨hj.1, hK _ (Connection.pending_of_none hj.2)⟩
  have hrollback : Triple (On fun c d' => d' = d ∧ K c) AgentSession.rollback
      (fun _ => On fun c d' => d' = d ∧ c.tx = none) (On fun c d' => d' = d ∧ K c) := by
    apply ending_on
    · exact fun _ hj hon => ⟨hj.1, Connection.none_of_autoCommit hon⟩
    · exact fun _ hj => Jvm.settled_rollback hj.1
    · exact fun _ hj => Jvm.settled_setAutoCommit hj
    · exact fun _ hj => hj
    · exact fun _ hj => ⟨hj.1, hK _ hj.2⟩
  exact reset_on hrollback (fun _ _ _ => perform_durable) hnone fun _ hj _ => hj

/-- Once the rollback of a reset is performed there is nothing more to commit, whatever fails after it. -/
theorem reset_rolls_back :
    Triple (fun j => Calm (fun _ d' => d' = d) 2 j ∧ j.conn.closed = false) (handle luck (.reset sql))
      (fun _ => On fun c d' => d' = d ∧ c.pending = 0) (On fun c d' => d' = d ∧ c.pending = 0) := by
  have hnone : ∀ j : Jvm, On (fun c d' => d' = d ∧ c.tx = none) j → On (fun c d' => d' = d ∧ c.pending = 0) j :=
    fun _ hj => ⟨hj.1, Connection.pending_of_none hj.2⟩
  have hrollback : Triple (Calm (fun _ d' => d' = d) 2) AgentSession.rollback
      (fun _ => On fun c d' => d' = d ∧ c.tx = none) (On fun c d' => d' = d ∧ c.pending = 0) := by
    apply Triple.bind (getAutoCommit_calm.conseq (fun _ h => h) (fun _ _ h => h) fun _ h => h.elim)
    intro on
    apply Triple.ite
    · intro _
      have hends : Triple (Calm (fun _ d' => d' = d) 1) (driver Jvm.rollback)
          (fun _ => Calm (fun c d' => d' = d ∧ c.pending = 0) 0) (fun _ => False) :=
        driver_calm (fun _ => rfl) fun _ hj => Jvm.settled_rollback hj
      apply Triple.bind (hends.conseq (fun _ h => h.1) (fun _ _ h => h) fun _ h => h.elim)
      intro _
      apply (driver_on fun _ hj => Jvm.settled_setAutoCommit hj).pre
      exact fun _ hj => hj.1
    · intro hon
      rw [Bool.not_eq_true', Bool.not_eq_false] at hon
      exact Triple.pure fun _ hj => ⟨hj.1.1, Connection.none_of_autoCommit (hj.2.trans hon)⟩
  apply (reset_on (hrollback.pre fun _ hj => hj.1) (fun _ _ _ => perform_durable) hnone _).post
  · exact fun _ _ hj => hnone _ hj
  · rintro j ⟨-, hopen⟩ hclosed
    rw [hopen] at hclosed
    cases hclosed

end Reset

/-! ## Transactions that are not given away -/

/-- A `BEGIN` that takes effect and fails is the only one that leaves a transaction and fails. -/
theorem begin_refused {j : Jvm} {t : Thrown} {j' : Jvm} (htx : j.conn.tx = none)
    (hcalm : j.conn.closed = false → calm 2 j.throws = true → calm 3 j.throws = true)
    (hj : handle luck .begin j = .error t j') : j'.conn.tx = none := by
  obtain ⟨⟨tx, block, left, closed⟩, durable, throws⟩ := j
  obtain rfl : tx = none := htx
  cases closed with
  | true =>
      cases hj
      rfl
  | false =>
      -- it looks at autocommit, switches it off and looks again
      obtain _ | ⟨_ | t₁, _ | ⟨_ | t₂, _ | ⟨_ | t₃, throws⟩⟩⟩ := throws
      case cons.none.cons.none.cons.some => simp [calm] at hcalm
      all_goals cases hj <;> rfl

theorem gate_isReleasable : Gate SessionState.isReleasable where
  releasable _ h := h
  broken _ h := (SessionState.isReleasable_iff.mp h).1

/-- The session has no transaction open on a connection that it may give back. -/
abbrev Settled (s : Session) : Prop := Guarded SessionState.isReleasable (fun c => c.tx = none) s

/-- A request that performs no text and is no `BEGIN` opens no transaction. -/
theorem plain_settled (luck : Luck) (request : Request) (hplain : request.plain = true) (hbegin : request ≠ .begin) :
    Triple (On fun c _ => c.tx = none) (handle luck request) (fun _ => On fun c _ => c.tx = none)
      (On fun c _ => c.tx = none) := by
  have hcommit : ∀ j : Jvm, On (fun c _ => c.tx = none) j → On (fun c _ => c.tx = none) j.commit := by
    intro j hj
    have htx : j.conn.tx = none := hj
    simp only [On, Jvm.commit, htx, Option.map_none]
  have hrollback : ∀ j : Jvm, On (fun c _ => c.tx = none) j → On (fun c _ => c.tx = none) j.rollback := by
    intro j hj
    have htx : j.conn.tx = none := hj
    simp only [On, Jvm.rollback, htx, Option.map_none]
  have hset : ∀ j : Jvm, On (fun c _ => c.tx = none) j → On (fun c _ => c.tx = none) (j.setAutoCommit true) := by
    intro j hj
    have htx : j.conn.tx = none := hj
    simp only [On, Jvm.setAutoCommit, htx]
  apply Triple.post (plain_on hplain (fun h => absurd h hbegin) (fun _ => hcommit) (fun _ => hrollback) hset
    fun _ hj => hj)
  exact fun _ _ h => h.1

/-- The answer to transaction control tells whether a transaction is open. -/
theorem control_tells {c : TransactionControl} {answer : Answer} {j j' : Jvm}
    (hj : handle luck c.request j = .ok answer j') : j'.conn.autoCommit = !answer.inTransaction := by
  have hany : ∀ j : Jvm, On (fun _ _ => True) j := fun _ => trivial
  have htells : Triple (On fun _ _ => True) (handle luck c.request) _ _ := plain_on c.plain_request
    (fun _ _ _ _ => trivial) (fun _ j _ => hany j.commit) (fun _ _ _ => trivial) (fun _ _ => trivial) fun _ _ => trivial
  obtain ⟨-, ⟨sql, hdescribe⟩ | ⟨tx, rfl, hon⟩⟩ := htells.ok trivial hj
  · cases c <;> cases hdescribe
  · exact hon

theorem Settled.asks (h : Settled s) (hasks : Asks luck m s s₁) (hbegins : s.begins luck m) : Settled s₁ := by
  cases hasks with
  | nothing => exact h
  | idles hheld => exact ⟨h.handed, fun _ => by simp [Session.conn, Session.observeFlow, hheld]⟩
  | @describes sql _ hmade =>
      have hkept := plain_settled luck (.describe sql) rfl (by simp)
      apply h.made gate_isReleasable hmade fun _ _ => ⟨rfl, rfl⟩
      · intro answer j s₁ _ _ hj halike hs₁
        rw [id, halike.flow] at hs₁
        exact hkept.ok (Session.on (h.held hs₁)) hj
      · exact fun e j _ _ hj hs => hkept.error (Session.on (h.held hs)) hj
  | @controls c _ hcontrol hmade =>
      apply h.made gate_isReleasable hmade fun _ _ => ⟨rfl, rfl⟩
      · intro answer j s₁ _ _ hj halike hs₁
        have hidle := (releasable_iff.mp hs₁).2
        apply Connection.none_of_autoCommit
        rw [control_tells hj]
        cases hanswer : answer.inTransaction with
        | true => rw [hanswer] at hidle; cases hidle
        | false => rfl
      · intro e j hlink hborrows hj hs
        have htx : s.conn.tx = none := h.held hs
        cases c with
        | begin =>
            apply begin_refused htx _ hj
            intro hopen hcalm
            have hreaches : s.reaches luck = true :=
              Session.reaches_of hlink hborrows ⟨hopen, calm_mono (by decide) hcalm, rfl⟩
            have hon : s.conn.autoCommit = true := Option.isNone_iff_eq_none.mpr htx
            exact hbegins hcontrol (releasable_iff.mp hs).1 hreaches hon hcalm
        | commit => exact (plain_settled luck .commit rfl (by simp)).error (Session.on htx) hj
        | rollback => exact (plain_settled luck .rollback rfl (by simp)).error (Session.on htx) hj
  | @runs sql values _ htext hmade =>
      apply h.made gate_isReleasable hmade fun _ _ => ⟨rfl, rfl⟩
      · intro answer j s₁ _ _ hj halike hs₁
        have htells : Triple (On fun _ _ => True) (handle luck (.execute sql values)) _ _ :=
          execute_request_on fun _ _ _ _ => trivial
        obtain ⟨-, outcome, rfl, hon⟩ := htells.ok trivial hj
        have hidle : outcome.inTransaction = false := by
          rw [← (releasable_iff.mp hs₁).2]
          exact (Session.inTransaction_observe _ _ _).symm
        apply Connection.none_of_autoCommit
        rw [hon, hidle]
        rfl
      · intro e j _ _ hj hs
        have hkept : Triple (On fun c _ => c.tx = none) (handle luck (.execute sql values)) _ _ :=
          execute_request_on fun statement _ j hj => (perform_durable (d := j.durable) ⟨rfl, hj⟩).2
        exact hkept.error (Session.on (h.held hs)) hj

/-! ## Runs -/

/-- Connections that are passed on have no transaction, and one that is to be closed has nothing to commit. -/
structure World.Settles (w : World) : Prop where
  guards : w.Guards SessionState.isReleasable fun c => c.tx = none
  shelved : ∀ c ∈ w.shelved, c.tx = none
  retiring : w.phase = .retiring → w.session.conn.pending = 0

theorem Asks.durable (hasks : Asks luck m s s₁) (hcommit : s.controls m ≠ some .commit)
    (hran : (s.text m).isSome = true → Statement.commits ∉ luck.ran) : s₁.durable = s.durable := by
  cases hasks with
  | nothing => rfl
  | idles _ => rfl
  | describes hmade =>
      apply hmade.keeps (plain_durable luck _ rfl (by simp)) rfl
      exact fun _ _ => ⟨rfl, rfl⟩
  | @controls c _ hcontrol hmade =>
      have hc : c.request ≠ .commit := by
        intro hc
        cases c with
        | begin => cases hc
        | commit => exact hcommit hcontrol
        | rollback => cases hc
      apply hmade.keeps (plain_durable luck _ c.plain_request hc) rfl
      exact fun _ _ => ⟨rfl, rfl⟩
  | runs htext hmade =>
      apply hmade.keeps (execute_durable (hran (by rw [htext]; rfl))) rfl
      exact fun _ _ => ⟨rfl, rfl⟩

theorem Session.durable_releaseIfIdle (s : Session) : s.releaseIfIdle.durable = s.durable := by
  unfold releaseIfIdle
  split
  · split <;> rfl
  · rfl

theorem Turn.durable (hturn : Turn luck m s s') (hcommit : s.controls m ≠ some .commit)
    (hran : (s.text m).isSome = true → Statement.commits ∉ luck.ran) : s'.durable = s.durable := by
  obtain ⟨s₁, hasks, halike | halike⟩ := hturn
  · rw [halike.durable, hasks.durable hcommit hran]
  · rw [halike.durable, s₁.durable_releaseIfIdle, hasks.durable hcommit hran]

/-- Recycling makes nothing durable, leaves no transaction if it says that the connection is clean, and nothing
to commit if the condition is met. -/
theorem Recycled.settles {clean : Bool} (hrecycled : Recycled luck w.session w.resetQuery clean s') :
    s'.durable = w.session.durable ∧ (clean = true → s'.conn.tx = none) ∧
      (w.undoes luck → s'.conn.pending = 0) := by
  generalize hquery : w.resetQuery = resetQuery at hrecycled
  cases hrecycled with
  | discarded hconn =>
      refine ⟨hconn.durable, by simp, ?_⟩
      rintro (hpending | ⟨hreset, -⟩)
      · rw [hconn.conn]
        exact hpending
      · rw [hquery] at hreset
        cases hreset
  | @reset sql r _ s₀ s₁ _ hstart hcalled hclean hend =>
      rw [hend.durable, hend.conn, ← hstart.durable]
      have hkept : ∀ K : Connection → Prop, (∀ c : Connection, c.pending = 0 → K c) → K s₀.conn →
          s₁.durable = s₀.durable ∧ K s₁.conn := by
        intro K hK hs₀
        have hleads : Triple (On fun c d' => d' = s₀.durable ∧ K c) (handle luck (.reset sql))
            (fun _ => On fun c d' => d' = s₀.durable ∧ K c) (On fun c d' => d' = s₀.durable ∧ K c) :=
          (reset_settles hK).post fun _ _ hj => ⟨hj.1, hK _ (Connection.pending_of_none hj.2)⟩
        exact hcalled.leads hleads (Session.on ⟨rfl, hs₀⟩) fun _ => ⟨rfl, hs₀⟩
      refine ⟨(hkept (fun _ => True) (fun _ _ => trivial) trivial).1, ?_, ?_⟩
      · intro hc
        obtain ⟨answer, rfl⟩ := hclean hc
        cases hcalled with
        | answered hlink hj halike =>
            rw [halike.sameConn.conn]
            have hstart : On (fun c d' => d' = s₀.durable ∧ True) (s₀.jvm luck) := ⟨rfl, trivial⟩
            exact ((reset_settles fun _ _ => trivial).ok hstart hj).2
      · rintro (hpending | ⟨-, hopen, hperforms, hcalm⟩)
        · exact (hkept (fun c => c.pending = 0) (fun _ h => h) (by rw [hstart.conn]; exact hpending)).2
        · rw [← hstart.conn] at hopen
          have hrolls : Triple _ (handle luck (.reset sql)) _ _ := reset_rolls_back (d := s₀.durable)
          apply (hcalled.leads hrolls ⟨⟨rfl, hcalm⟩, hopen⟩ _).2
          intro hmissed
          rw [hperforms] at hmissed
          cases hmissed

theorem World.Settles.guards_step (h : w.Settles) (hundone : Undone w e) :
    (step w e).Guards SessionState.isReleasable fun c => c.tx = none := by
  apply h.guards.step (P := fun c => c.tx = none) gate_isReleasable rfl fun _ _ => rfl
  rintro m luck writes rfl hphase s₁ hasks
  have hsettled : Settled { w.session with writes } := (h.guards.serving hphase).alike ⟨rfl, rfl, rfl, rfl, rfl⟩
  exact hsettled.asks hasks (hundone hphase)

theorem Session.durable_closeHeld {commits : Bool} (h : s.conn.pending = 0) :
    (s.closeHeld commits).durable = s.durable := by
  unfold closeHeld
  split
  · rfl
  case h_2 b hheld =>
    rw [conn, hheld, Option.getD_some] at h
    cases commits with
    | true => simp [after, Jvm.close, h]
    | false => rfl

theorem Session.pending_closeHeld {commits : Bool} (h : s.conn.pending = 0) :
    (s.closeHeld commits).conn.pending = 0 := by
  unfold closeHeld
  split
  · exact h
  · rfl

/-- **Step lemma.** A step that meets the condition makes something durable only if it was asked for. -/
theorem World.Settles.step (h : w.Settles) (hundone : Undone w e) :
    (step w e).Settles ∧ (¬ Asked w e → (step w e).session.durable = w.session.durable) := by
  suffices hrest : (∀ c ∈ (Jdbc.step w e).shelved, c.tx = none) ∧
      ((Jdbc.step w e).phase = .retiring → (Jdbc.step w e).session.conn.pending = 0) ∧
      (¬ Asked w e → (Jdbc.step w e).session.durable = w.session.durable) from
    ⟨⟨h.guards_step hundone, hrest.1, hrest.2.1⟩, hrest.2.2⟩
  unfold Jdbc.step
  split
  case h_1 => exact ⟨h.shelved, by simp, fun _ => rfl⟩
  case h_2 m luck writes _ hphase =>
    have hafter : ∀ s', Turn luck m { w.session with writes } s' → ¬ Asked w (.message m luck writes) →
        s'.durable = w.session.durable := by
      intro s' hturn hasked
      obtain ⟨hcommit, hran⟩ := not_or.mp hasked
      exact hturn.durable hcommit (not_and.mp hran)
    cases hresult : onMessage luck m { w.session with writes } with
    | ok _ s' => exact ⟨h.shelved, by simp [World.after], hafter s' ((onMessage_turn luck m _).ok rfl hresult)⟩
    | error _ s' => exact ⟨h.shelved, by simp [World.after], hafter s' ((onMessage_turn luck m _).error rfl hresult)⟩
  case h_3 => exact ⟨h.shelved, by simp, fun _ => rfl⟩
  case h_4 => exact ⟨h.shelved, by simp, fun _ => rfl⟩
  case h_5 luck hphase =>
    split
    case isFalse => exact ⟨h.shelved, by simp [hphase], fun _ => rfl⟩
    case isTrue =>
      dsimp only
      obtain ⟨_, s', habandon, htried⟩ := (abandon_tried luck (w.session.toldFatal _ _)).returns
      rw [habandon]
      refine ⟨h.shelved, by simp [World.after], fun _ => ?_⟩
      exact Tried.keeps (s := w.session.toldFatal _ _) (R := fun _ d => d = w.session.durable)
        (plain_durable luck .rollback rfl (by simp)) rfl htried
  case h_6 failed luck retire hphase =>
    split
    case isFalse => exact ⟨h.shelved, by simp, fun _ => rfl⟩
    case isTrue hheld =>
      obtain ⟨clean, s', hrecycle, hrecycled⟩ := (recycle_recycled w.resetQuery failed luck hheld).returns
      obtain ⟨hdurable, hclean, hpending⟩ := hrecycled.settles
      rw [hrecycle, World.giveBack]
      split
      case h_1 => exact ⟨h.shelved, by simp, fun _ => hdurable⟩
      case h_2 b hb =>
        split
        case isFalse => exact ⟨h.shelved, fun _ => hpending hundone, fun _ => hdurable⟩
        case isTrue hkept =>
          rw [Bool.and_eq_true, Bool.and_eq_true] at hkept
          rw [Session.conn, hb] at hclean
          refine ⟨?_, by simp, fun _ => hdurable⟩
          intro c hc
          obtain hc | hc := List.mem_append.mp hc
          · exact h.shelved c hc
          · rw [List.mem_singleton.mp hc]
            exact hclean hkept.1.1
  case h_7 hphase =>
    exact ⟨h.shelved, by simp, fun _ => Session.durable_closeHeld (h.retiring hphase)⟩
  case h_8 =>
    refine ⟨h.shelved, fun _ => ?_, fun _ => Session.durable_closeHeld hundone⟩
    exact Session.pending_closeHeld hundone
  case h_9 => exact ⟨h.shelved, h.retiring, fun _ => rfl⟩

variable {rules : SessionRules} {mode : PoolMode} {resetQuery : Option Text} {ls : List Event}

/-- **Nothing is committed unasked.** In every run in which a session that ends inside a transaction is rolled
back, only a `COMMIT` of the client makes statements of a transaction durable, and no connection is passed on
inside a transaction. -/
theorem nothing_committed_unasked (hrun : Along step Undone (opened rules mode resetQuery) (ls ++ [e])) :
    let w := run step (opened rules mode resetQuery) ls
    ((step w e).session.durable ≠ w.session.durable → Asked w e) ∧
      ∀ c ∈ (step w e).session.handed ++ (step w e).shelved, c.tx = none := by
  intro w
  have hstart : (opened rules mode resetQuery).Settles :=
    ⟨(guarded_opened (P := fun c => c.tx = none) gate_isReleasable rfl rules mode).guards,
      by simp [opened], by simp [opened]⟩
  obtain ⟨hbefore, hlast⟩ := Along.append.mp hrun
  have hw : w.Settles := hbefore.invariant (fun w e hw hundone => (hw.step hundone).1) hstart
  obtain ⟨hnext, hdurable⟩ := hw.step hlast.1
  refine ⟨fun hchanged => ?_, ?_⟩
  · by_contra hasked
    exact hchanged (hdurable hasked)
  · intro c hc
    obtain hc | hc := List.mem_append.mp hc
    · exact hnext.guards.handed c hc
    · exact hnext.shelved c hc

/-- A transaction that is committed, and one that is rolled back as the client has gone. -/
theorem nothing_committed_unasked_hangUp :
    let insert : Event := .message (.query "insert into t values (1)".toList) { ran := [.work none] } []
    let ls := [Event.message (.query "begin".toList) {} [], insert, .message (.query "commit".toList) {} [],
      .message (.query "begin".toList) {} [], insert, .hangUp]
    let w := run step (opened postgresqlRules .transaction (some "DISCARD ALL".toList)) ls
    w.session.durable = 1 ∧ w.session.conn.pending = 1 ∧
      (((step w (.recycle {} false)).session.durable ≠ w.session.durable → Asked w (.recycle {} false)) ∧
        ∀ c ∈ (step w (.recycle {} false)).session.handed ++ (step w (.recycle {} false)).shelved, c.tx = none) :=
  ⟨by decide, by decide, nothing_committed_unasked (by decide)⟩

/-- Without a reset query the connection is closed inside the transaction, and the driver may commit it. -/
theorem not_nothing_committed_unasked :
    ¬ ∀ ls e, let w := run step (opened postgresqlRules .session none) ls
      (step w e).session.durable ≠ w.session.durable → Asked w e := by
  intro h
  have hasked := h [.message (.query "begin".toList) {} [],
    .message (.query "insert into t values (1)".toList) { ran := [.work none] } [], .hangUp, .recycle {} false]
    (.close true)
  exact hasked (by decide)

end Havuz.Jdbc
