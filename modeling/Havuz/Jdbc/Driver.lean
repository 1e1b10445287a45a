import Havuz.Jdbc.Agent
import Havuz.Lib.Triple

/-!
# What requests do to a connection

One rule for a driver call, one for each method of the agent's session over it, and from these what the
requests keep: a clean connection, what has become durable, and autocommit.
-/

namespace Havuz.Jdbc

open Lib

variable {luck : Luck} {request : Request} {sql : Text} {params : List Value}

/-- A fact about the connection and what has become durable, whichever calls are still to throw. -/
def On (R : Connection → ℕ → Prop) (j : Jvm) : Prop := R j.conn j.durable

/-- What is left of a connection after a request, whether it succeeded or not. -/
def afterwards (result : EStateM.Result Thrown Jvm Answer) : Jvm :=
  match result with
  | .ok _ j => j
  | .error _ j => j

/-- The requests that perform no text. -/
def Request.plain : Request → Bool
  | .execute _ _ => false
  | .reset _ => false
  | _ => true

/-! ## The rules -/

section Rules

variable {R R' Q E : Connection → ℕ → Prop}

theorem driver_on {f : Jvm → Jvm} (h : ∀ j, On R j → On Q (f j)) :
    Triple (On R) (driver f) (fun _ => On Q) (On R) := by
  intro j hj
  cases ht : j.throws with
  | nil =>
      simp only [driver, ht]
      exact h j hj
  | cons t rest =>
      cases t with
      | none =>
          simp only [driver, ht]
          exact h _ hj
      | some e =>
          simp only [driver, ht]
          exact hj

/-- A call that changes nothing. -/
theorem driver_id_on : Triple (On R) (driver id) (fun _ => On R) (On R) := driver_on fun _ hj => hj

theorem getAutoCommit_on :
    Triple (On R) getAutoCommit (fun on j => On R j ∧ j.conn.autoCommit = on) (On R) := by
  apply driver_id_on.bind
  intro _
  apply Triple.get_bind
  intro j hj
  exact Triple.pure fun j' hj' => by rw [hj']; exact ⟨hj, rfl⟩

theorem inTransaction_on :
    Triple (On R) AgentSession.inTransaction (fun tx j => On R j ∧ j.conn.autoCommit = !tx) (On R) :=
  getAutoCommit_on.bind fun on => Triple.pure fun _ hj => ⟨hj.1, by rw [hj.2, Bool.not_not]⟩

theorem begin_on (hset : ∀ j, On R j → j.conn.autoCommit = true → On R (j.setAutoCommit false)) :
    Triple (On R) AgentSession.begin (fun _ => On R) (On R) := by
  apply getAutoCommit_on.bind
  intro on
  apply Triple.ite
  · rintro rfl
    exact (driver_on (R := fun c d => R c d ∧ c.autoCommit = true) fun j hj => hset j hj.1 hj.2).conseq
      (fun _ hj => hj) (fun _ _ hj => hj) fun _ hj => hj.1
  · exact fun _ => Triple.pure fun _ hj => hj.1

/-- `commit` and `rollback`: nothing outside a transaction, else the end `f` of it and autocommit again. -/
theorem ending_on {f : Jvm → Jvm} (hskip : ∀ j, On R j → j.conn.autoCommit = true → On Q j)
    (hend : ∀ j, On R j → On R' (f j)) (hset : ∀ j, On R' j → On Q (j.setAutoCommit true))
    (hR : ∀ j, On R j → On E j) (hR' : ∀ j, On R' j → On E j) :
    Triple (On R)
      (do
        if !(← getAutoCommit) then
          driver f
          driver (Jvm.setAutoCommit true))
      (fun _ => On Q) (On E) := by
  apply Triple.bind (getAutoCommit_on.conseq (fun _ hj => hj) (fun _ _ hj => hj) hR)
  intro on
  apply Triple.ite
  · intro _
    apply Triple.bind ((driver_on hend).conseq (fun _ hj => hj.1) (fun _ _ hj => hj) hR)
    exact fun _ => (driver_on hset).conseq (fun _ hj => hj) (fun _ _ hj => hj) hR'
  · intro hon
    rw [Bool.not_eq_true', Bool.not_eq_false] at hon
    exact Triple.pure fun j hj => hskip j hj.1 (hj.2.trans hon)

theorem executeStatement_on (hperform : ∀ statement ∈ luck.ran, ∀ j, On R j → On R (j.perform statement)) :
    Triple (On R) (executeStatement luck.ran) (fun _ => On R) (On R) := by
  have hran : ∀ ran ⊆ luck.ran, ∀ j, On R j → On R (ran.foldl Jvm.perform j) := by
    intro ran
    induction ran with
    | nil => exact fun _ _ hj => hj
    | cons statement ran ih =>
        intro hsub j hj
        obtain ⟨hmem, hrest⟩ := List.cons_subset.mp hsub
        exact ih hrest _ (hperform statement hmem j hj)
  apply Triple.bind (Triple.modified (Q := fun _ => On R) fun j hj => hran _ (List.Subset.refl _) j hj)
  exact fun _ => driver_id_on

theorem execute_on (hperform : ∀ statement ∈ luck.ran, ∀ j, On R j → On R (j.perform statement)) :
    Triple (On R) (AgentSession.execute luck sql params)
      (fun outcome j => On R j ∧ j.conn.autoCommit = !outcome.inTransaction) (On R) := by
  apply driver_id_on.bind
  intro _
  apply (executeStatement_on hperform).bind
  intro _
  apply driver_id_on.bind
  intro _
  apply inTransaction_on.bind
  intro tx
  apply Triple.bind ((driver_on (R := fun c d => R c d ∧ c.autoCommit = !tx) fun _ hj => hj).conseq
    (fun _ hj => hj) (fun _ _ hj => hj) fun _ hj => hj.1)
  exact fun _ => Triple.pure fun _ hj => hj

theorem describe_on : Triple (On R) (AgentSession.describe luck sql) (fun _ => On R) (On R) :=
  driver_id_on.bind fun _ => driver_id_on.bind fun _ => Triple.pure fun _ hj => hj

/-- A method that is followed by a look at the state of the transaction. -/
theorem state_on {c : Java Unit} (h : Triple (On R) c (fun _ => On R) (On R)) :
    Triple (On R) (do c; return Answer.state (← AgentSession.inTransaction))
      (fun answer j => On R j ∧ ∃ tx, answer = .state tx ∧ j.conn.autoCommit = !tx) (On R) := by
  apply h.bind
  intro _
  apply inTransaction_on.bind
  exact fun tx => Triple.pure fun j hj => ⟨hj.1, tx, rfl, hj.2⟩

/-- An unknown session is not touched. -/
theorem handle_on {P F : Jvm → Prop} {A : Answer → Jvm → Prop} (h : Triple P (dispatch luck request) A F)
    (hclosed : ∀ j, P j → j.conn.closed = true → F j) : Triple P (handle luck request) A F := by
  apply Triple.get_bind
  intro j hj
  apply Triple.ite
  · exact fun hc => Triple.throw fun j' hj' => hj' ▸ hclosed j hj hc
  · exact fun _ => h.pre fun j' hj' => hj' ▸ hj

/-- What the requests that perform no text keep, and that those that are no description tell whether a transaction
is open. -/
theorem plain_on (hplain : request.plain = true)
    (hbegin : request = .begin → ∀ j, On R j → j.conn.autoCommit = true → On R (j.setAutoCommit false))
    (hcommit : request = .commit → ∀ j, On R j → On R' j.commit)
    (hrollback : request = .rollback → ∀ j, On R j → On R' j.rollback)
    (hset : ∀ j, On R' j → On R (j.setAutoCommit true)) (hR' : ∀ j, On R' j → On R j) :
    Triple (On R) (handle luck request)
      (fun answer j => On R j ∧
        ((∃ sql, request = .describe sql) ∨ ∃ tx, answer = .state tx ∧ j.conn.autoCommit = !tx)) (On R) := by
  apply handle_on _ fun _ hj _ => hj
  cases request with
  | execute sql params => cases hplain
  | reset sql => cases hplain
  | describe sql =>
      apply describe_on.bind
      exact fun _ => Triple.pure fun _ hj => ⟨hj, .inl ⟨sql, rfl⟩⟩
  | begin =>
      exact (state_on (begin_on (hbegin rfl))).post fun _ _ h => ⟨h.1, .inr h.2⟩
  | commit =>
      have hends := ending_on (fun _ hj _ => hj) (hcommit rfl) hset (fun _ hj => hj) hR'
      exact (state_on hends).post fun _ _ h => ⟨h.1, .inr h.2⟩
  | rollback =>
      have hends := ending_on (fun _ hj _ => hj) (hrollback rfl) hset (fun _ hj => hj) hR'
      exact (state_on hends).post fun _ _ h => ⟨h.1, .inr h.2⟩

theorem execute_request_on (hperform : ∀ statement ∈ luck.ran, ∀ j, On R j → On R (j.perform statement)) :
    Triple (On R) (handle luck (.execute sql params))
      (fun answer j => On R j ∧ ∃ outcome, answer = .executed outcome ∧ j.conn.autoCommit = !outcome.inTransaction)
      (On R) := by
  apply handle_on _ fun _ hj _ => hj
  apply (execute_on hperform).bind
  exact fun outcome => Triple.pure fun _ hj => ⟨hj.1, outcome, rfl, hj.2⟩

theorem afterwards_on {P : Jvm → Prop} {A : Answer → Jvm → Prop} (h : Triple P (handle luck request) A (On E))
    (hA : ∀ answer j, A answer j → On E j) {j : Jvm} (hj : P j) : On E (afterwards (handle luck request j)) := by
  cases hresult : handle luck request j with
  | ok answer j' => exact hA answer j' (h.ok hj hresult)
  | error e j' => exact h.error hj hresult

/-! ## Calls that do not throw -/

/-- None of the next `n` driver calls throws. -/
def calm (n : ℕ) (throws : List (Option Thrown)) : Bool := (throws.take n).all Option.isNone

theorem calm_mono {n n' : ℕ} {throws : List (Option Thrown)} (hn : n ≤ n') (h : calm n' throws = true) :
    calm n throws = true := by
  rw [calm, List.all_eq_true] at h ⊢
  exact fun t ht => h t ((List.take_sublist_take_left hn).subset ht)

/-- A fact about the connection, with some calls ahead that do not throw. -/
def Calm (R : Connection → ℕ → Prop) (n : ℕ) (j : Jvm) : Prop := On R j ∧ calm n j.throws = true

variable {n : ℕ}

theorem Calm.on {j : Jvm} (h : Calm R n j) : On R j := h.1

theorem Calm.mono {j : Jvm} {n' : ℕ} (h : Calm R n' j) (hn : n ≤ n') : Calm R n j := ⟨h.1, calm_mono hn h.2⟩

theorem driver_calm {f : Jvm → Jvm} (hthrows : ∀ j, (f j).throws = j.throws) (h : ∀ j, On R j → On Q (f j)) :
    Triple (Calm R (n + 1)) (driver f) (fun _ => Calm Q n) (fun _ => False) := by
  rintro j ⟨hj, hcalm⟩
  cases ht : j.throws with
  | nil =>
      simp only [driver, ht]
      refine ⟨h j hj, ?_⟩
      rw [hthrows, ht]
      simp [calm]
  | cons t rest =>
      rw [ht, calm, List.take_succ_cons, List.all_cons, Bool.and_eq_true] at hcalm
      obtain rfl := Option.isNone_iff_eq_none.mp hcalm.1
      simp only [driver, ht]
      refine ⟨h _ hj, ?_⟩
      rw [hthrows]
      exact hcalm.2

theorem driver_id_calm : Triple (Calm R (n + 1)) (driver id) (fun _ => Calm R n) (fun _ => False) :=
  driver_calm (fun _ => rfl) fun _ hj => hj

theorem getAutoCommit_calm :
    Triple (Calm R (n + 1)) getAutoCommit (fun on j => Calm R n j ∧ j.conn.autoCommit = on) (fun _ => False) := by
  apply driver_id_calm.bind
  intro _
  apply Triple.get_bind
  intro j hj
  exact Triple.pure fun j' hj' => by rw [hj']; exact ⟨hj, rfl⟩

/-! ## Calls of which one throws -/

/-- A fact about the connection, and one of the next calls throws. -/
def Fails (R : Connection → ℕ → Prop) (n : ℕ) (j : Jvm) : Prop := On R j ∧ calm n j.throws = false

theorem not_fails_zero {j : Jvm} : ¬ Fails R 0 j := by
  rintro ⟨-, h⟩
  rw [calm, List.take_zero] at h
  cases h

theorem driver_fails {f : Jvm → Jvm} (hthrows : ∀ j, (f j).throws = j.throws) (h : ∀ j, On R j → On Q (f j)) :
    Triple (Fails R (n + 1)) (driver f) (fun _ => Fails Q n) (On R) := by
  rintro j ⟨hj, hfails⟩
  cases ht : j.throws with
  | nil =>
      rw [ht, calm, List.take_nil] at hfails
      cases hfails
  | cons t rest =>
      cases t with
      | none =>
          rw [ht, calm, List.take_succ_cons, List.all_cons] at hfails
          simp only [driver, ht]
          refine ⟨h _ hj, ?_⟩
          rw [hthrows]
          exact hfails
      | some e =>
          simp only [driver, ht]
          exact hj

theorem driver_id_fails : Triple (Fails R (n + 1)) (driver id) (fun _ => Fails R n) (On R) :=
  driver_fails (fun _ => rfl) fun _ hj => hj

theorem getAutoCommit_fails :
    Triple (Fails R (n + 1)) getAutoCommit (fun on j => Fails R n j ∧ j.conn.autoCommit = on) (On R) := by
  apply driver_id_fails.bind
  intro _
  apply Triple.get_bind
  intro j hj
  exact Triple.pure fun j' hj' => by rw [hj']; exact ⟨hj, rfl⟩

/-- A description needs two calls. -/
theorem describe_fails :
    Triple (fun j => j.conn.closed = true ∨ calm 2 j.throws = false) (handle luck (.describe sql))
      (fun _ _ => False) (fun _ => True) := by
  let R : Connection → ℕ → Prop := fun _ _ => True
  have hdescribe : Triple (Fails R 2) (AgentSession.describe luck sql) (fun _ _ => False) (On R) := by
    apply driver_id_fails.bind
    intro _
    apply driver_id_fails.bind
    exact fun _ => Triple.pure fun _ h => not_fails_zero h
  apply Triple.get_bind
  rintro j hj
  apply Triple.ite
  · exact fun _ => Triple.throw fun _ _ => trivial
  · intro hopen
    rw [dispatch]
    apply Triple.bind (hdescribe.pre _) fun _ => Triple.pure fun _ h => h
    rintro _ rfl
    exact ⟨trivial, hj.resolve_left hopen⟩

end Rules

/-! ## What a text makes of the connection -/

section Text

variable {j : Jvm}

/-- The connection once the database has performed what it performs of a text. -/
def Jvm.performed (ran : List Statement) (j : Jvm) : Connection := (ran.foldl Jvm.perform j).conn

theorem Jvm.throws_perform (statement : Statement) (j : Jvm) : (j.perform statement).throws = j.throws := by
  cases statement <;> rfl

theorem Jvm.performed_congr (ran : List Statement) {j j' : Jvm} (h : j.conn = j'.conn) :
    j.performed ran = j'.performed ran := by
  unfold performed
  induction ran generalizing j j' with
  | nil => exact h
  | cons statement ran ih =>
      apply ih
      cases statement with
      | work leaves => simp only [perform, h]
      | opens => simp only [perform, h]
      | commits => simp only [perform, commit, h]
      | rollsBack => simp only [perform, rollback, h]

/-- The text reached the database. -/
structure Reached (luck : Luck) (j : Jvm) (c : Connection) : Prop where
  opened : j.conn.closed = false
  created : calm 1 j.throws = true
  performed : c = j.performed luck.ran

/-- Once the database has performed a text, what it left is there whether the request succeeds or not. -/
theorem execute_performed (j : Jvm) :
    Triple (fun j' => j' = j) (handle luck (.execute sql params)) (fun _ => On fun c _ => Reached luck j c)
      (On fun c _ => c = j.conn ∨ Reached luck j c) := by
  obtain hclosed | hclosed := Bool.eq_false_or_eq_true j.conn.closed
  · apply Triple.at_state
    simp only [handle, bind_apply, get_apply, hclosed, if_true]
    exact .inl rfl
  -- the first call creates the statement, and only if it does not throw the text is performed
  have hcreate : Triple (fun j' => j' = j) (driver id) (fun _ j' => j'.conn = j.conn ∧ calm 1 j.throws = true)
      (fun j' => j'.conn = j.conn) := by
    apply Triple.at_state
    cases ht : j.throws with
    | nil => simp [driver, ht, calm]
    | cons t rest => cases t <;> simp [driver, ht, calm]
  let R : Connection → ℕ → Prop := fun c _ => Reached luck j c
  have hrest : Triple (On R) (do
        driver id
        let inTransaction ← AgentSession.inTransaction
        driver id
        return (⟨luck.columns, luck.rows, luck.updateCount, inTransaction⟩ : Outcome))
      (fun _ => On R) (On R) := by
    apply driver_id_on.bind
    intro _
    apply Triple.bind (inTransaction_on.post fun _ _ h => h.1)
    intro _
    apply driver_id_on.bind
    exact fun _ => Triple.pure fun _ h => h
  have hexecute : Triple (fun j' => j' = j) (AgentSession.execute luck sql params) (fun _ => On R)
      (fun j' => j'.conn = j.conn ∨ On R j') := by
    apply Triple.bind (hcreate.conseq (fun _ h => h) (fun _ _ h => h) fun _ h => .inl h)
    intro _
    apply Triple.bind (Q := fun _ => On R)
    · apply Triple.bind (Triple.modified (Q := fun _ => On R) ?_)
      · exact fun _ => driver_id_on.conseq (fun _ h => h) (fun _ _ h => h) fun _ h => .inr h
      · exact fun j' hj' => ⟨hclosed, hj'.2, Jvm.performed_congr luck.ran hj'.1⟩
    · exact fun _ => hrest.conseq (fun _ h => h) (fun _ _ h => h) fun _ h => .inr h
  apply handle_on
  · exact hexecute.bind fun _ => Triple.pure fun _ h => h
  · rintro _ rfl h
    rw [hclosed] at h
    cases h

/-- A transaction is rolled back, and then a text is performed. -/
theorem reset_on {P : Jvm → Prop} {Q E : Connection → ℕ → Prop}
    (hrollback : Triple P AgentSession.rollback (fun _ => On Q) (On E))
    (hperform : ∀ statement ∈ luck.ran, ∀ j, On Q j → On Q (j.perform statement)) (hQE : ∀ j, On Q j → On E j)
    (hclosed : ∀ j, P j → j.conn.closed = true → On E j) :
    Triple P (handle luck (.reset sql)) (fun _ => On Q) (On E) := by
  have hend : Triple (On Q) (do driver id; return luck.valid) (fun _ => On Q) (On Q) :=
    driver_id_on.bind fun _ => Triple.pure fun _ h => h
  have hrest : Triple (On Q) (do
        driver id
        if !(Text.trim sql).isEmpty then
          driver id
          executeStatement luck.ran
          driver id
        driver id
        return luck.valid)
      (fun _ => On Q) (On Q) := by
    apply driver_id_on.bind
    intro _
    apply Triple.ite
    · intro _
      apply driver_id_on.bind
      intro _
      apply (executeStatement_on hperform).bind
      intro _
      apply driver_id_on.bind
      exact fun _ => hend
    · exact fun _ => hend
  apply handle_on _ hclosed
  apply Triple.bind (Q := fun _ => On Q)
  · apply hrollback.bind
    exact fun _ => hrest.conseq (fun _ h => h) (fun _ _ h => h) hQE
  · exact fun _ => Triple.pure fun _ h => h

/-- A request fails only if the session is gone or a call throws. -/
theorem execute_succeeds :
    Triple (fun j => j.conn.closed = false ∧ calm 5 j.throws = true) (handle luck (.execute sql params))
      (fun _ _ => True) (fun _ => False) := by
  let R : Connection → ℕ → Prop := fun _ _ => True
  have hthrows : ∀ (ran : List Statement) (j : Jvm), (ran.foldl Jvm.perform j).throws = j.throws := by
    intro ran
    induction ran with
    | nil => exact fun _ => rfl
    | cons statement ran ih => exact fun j => (ih _).trans (j.throws_perform statement)
  have hexecute : Triple (Calm R 5) (AgentSession.execute luck sql params) (fun _ _ => True) (fun _ => False) := by
    apply driver_id_calm.bind
    intro _
    apply Triple.bind (Q := fun _ => Calm R 3)
    · apply Triple.bind (Triple.modified (Q := fun _ => Calm R 4) ?_) fun _ => driver_id_calm
      rintro j ⟨-, hcalm⟩
      refine ⟨trivial, ?_⟩
      rw [hthrows]
      exact hcalm
    intro _
    apply driver_id_calm.bind
    intro _
    apply Triple.bind (Q := fun _ => Calm R 1)
    · exact getAutoCommit_calm.bind fun _ => Triple.pure fun _ h => h.1
    intro _
    apply driver_id_calm.bind
    exact fun _ => Triple.pure fun _ _ => trivial
  apply handle_on
  · apply Triple.bind (hexecute.pre _) fun _ => Triple.pure fun _ _ => trivial
    exact fun _ hj => ⟨trivial, hj.2⟩
  · rintro j ⟨hopen, -⟩ hclosed
    rw [hopen] at hclosed
    cases hclosed

end Text

end Havuz.Jdbc
