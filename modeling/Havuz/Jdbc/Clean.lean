import Havuz.Jdbc.Guard

/-!
# Clean connections change hands

A connection is given back without a reset, because whatever makes it dirty is to be known by the leading
words of the text that did it (`release_if_idle`). A text that goes on behind a semicolon, or fails after it
has left something, is not known by them. `Confined` excludes these, and then every connection that is given
back is clean (`hands_over_clean`).
-/

namespace Havuz.Jdbc

open Lib

variable {s s' s₁ : Session} {luck : Luck} {m : Frontend} {request : Request} {w : World} {e : Event}

/-- Nothing is left behind on the connection, and no transaction opened by SQL is open. -/
def Connection.clean (c : Connection) : Bool := c.left.isEmpty && !c.block

/-! ## The condition -/

/-- What a message runs that reaches the database while the session may still share its connection leaves it
clean, or has leading words that pin it and does not fail. -/
def Session.confines (s : Session) (luck : Luck) (m : Frontend) : Prop :=
  ∀ sql ∈ s.text m, mayShare s.flow = true → s.reaches luck = true →
    ((s.jvm luck).performed luck.ran).clean = true ∨
      (s.rules.classify sql).isSome = true ∧ calm 5 luck.throws = true

instance (s : Session) (luck : Luck) (m : Frontend) : Decidable (s.confines luck m) := by
  unfold Session.confines
  infer_instance

/-- The condition on a run. -/
def Confined (w : World) : Event → Prop
  | .message m luck _ => w.phase = .serving → w.session.confines luck m
  | _ => True

instance (w : World) (e : Event) : Decidable (Confined w e) :=
  match e with
  | .message m luck _ => inferInstanceAs (Decidable (w.phase = .serving → w.session.confines luck m))
  | .hangUp | .kick | .idleTimeout .. | .recycle .. | .close .. | .shutdown .. => inferInstanceAs (Decidable True)

/-! ## Requests that perform no text -/

theorem Connection.clean_of_ended {c : Connection} (tx : Option ℕ) (hc : c.clean = true) :
    ({ c with tx, block := false } : Connection).clean = true := by
  simp_all [Connection.clean]

theorem Jvm.clean_setAutoCommit (on : Bool) {j : Jvm} (hj : j.conn.clean = true) :
    (j.setAutoCommit on).conn.clean = true := by
  unfold Jvm.setAutoCommit
  split
  · exact Connection.clean_of_ended none hj
  · exact hj
  · exact hj
  · exact hj

/-- They leave a clean connection clean. -/
theorem handle_clean (luck : Luck) (hplain : request.plain = true) :
    Triple (On fun c _ => c.clean = true) (handle luck request) (fun _ => On fun c _ => c.clean = true)
      (On fun c _ => c.clean = true) := by
  have hset : ∀ (on : Bool) (j : Jvm), On (fun c _ => c.clean = true) j →
      On (fun c _ => c.clean = true) (j.setAutoCommit on) := fun on _ hj => Jvm.clean_setAutoCommit on hj
  have hcommit : ∀ j : Jvm, On (fun c _ => c.clean = true) j → On (fun c _ => c.clean = true) j.commit :=
    fun _ hj => Connection.clean_of_ended _ hj
  have hrollback : ∀ j : Jvm, On (fun c _ => c.clean = true) j → On (fun c _ => c.clean = true) j.rollback :=
    fun _ hj => Connection.clean_of_ended _ hj
  apply Triple.post (plain_on hplain (fun _ j hj _ => hset false j hj) (fun _ => hcommit) (fun _ => hrollback)
    (hset true) fun _ hj => hj)
  exact fun _ _ h => h.1

/-! ## Runs -/

theorem gate_mayShare : Gate mayShare where
  releasable _ h := (releasable_iff.mp h).1
  broken _ h := (mayShare_iff.mp h).2.2

theorem mayShare_observe {sql : Text} {tx : Bool} (h : mayShare (s.observe sql tx).flow = true) :
    mayShare s.flow = true ∧ s.rules.classify sql = none := by
  unfold Session.observe at h
  obtain ⟨hmode, hpin, hbroken⟩ := mayShare_iff.mp h
  cases hm : s.flow.mode.multiplexes <;> cases hc : s.rules.classify sql <;> cases tx <;>
    simp_all [SessionState.observe, mayShare]

/-- The session keeps a connection clean while it may share it. -/
abbrev Sharing (s : Session) : Prop := Guarded mayShare (fun c => c.clean = true) s

theorem Sharing.plain {fold : Answer → Session → Session} (h : Sharing s) (hplain : request.plain = true)
    (hmade : Made luck request fold s s₁)
    (hfold : ∀ answer s₁, (fold answer s₁).handed = s₁.handed ∧ (fold answer s₁).conn = s₁.conn)
    (hflow : ∀ answer s₁, mayShare (fold answer s₁).flow = mayShare s₁.flow) : Sharing s₁ := by
  have hclean := handle_clean luck hplain
  apply h.made gate_mayShare hmade hfold
  · intro answer j s₁ _ _ hj halike hs₁
    rw [hflow, halike.flow] at hs₁
    exact hclean.ok (Session.on (h.held hs₁)) hj
  · exact fun e j _ _ hj hs => hclean.error (Session.on (h.held hs)) hj

theorem Sharing.asks (h : Sharing s) (hasks : Asks luck m s s₁) (hconfined : s.confines luck m) : Sharing s₁ := by
  cases hasks with
  | nothing => exact h
  | idles _ => exact ⟨h.handed, h.held⟩
  | describes hmade => exact h.plain rfl hmade (fun _ _ => ⟨rfl, rfl⟩) fun _ _ => rfl
  | @controls c _ _ hmade =>
      apply h.plain c.plain_request hmade (fun _ _ => ⟨rfl, rfl⟩)
      intro answer s₁
      cases answer.inTransaction <;> rfl
  | @runs sql values _ htext hmade =>
      apply h.made gate_mayShare hmade fun _ _ => ⟨rfl, rfl⟩
      · intro answer j s₁ hlink hborrows hj halike hs₁
        obtain ⟨hshares, hclassify⟩ := mayShare_observe hs₁
        rw [halike.flow] at hshares
        have hnone : s.rules.classify sql = none := by
          rw [halike.rules] at hclassify
          exact hclassify
        have hreached := (execute_performed (s.jvm luck)).ok rfl hj
        obtain hclean | ⟨hpins, -⟩ := hconfined sql htext hshares (Session.reaches_of hlink hborrows hreached)
        · rw [hreached.performed]
          exact hclean
        · rw [hnone] at hpins
          cases hpins
      · intro e j hlink hborrows hj hshares
        obtain hbefore | hreached := (execute_performed (s.jvm luck)).error rfl hj
        · rw [hbefore]
          exact h.held hshares
        · obtain hclean | ⟨-, hcalm⟩ := hconfined sql htext hshares (Session.reaches_of hlink hborrows hreached)
          · rw [hreached.performed]
            exact hclean
          · exact (execute_succeeds.error ⟨hreached.opened, hcalm⟩ hj).elim

variable {rules : SessionRules} {mode : PoolMode} {resetQuery : Option Text} {ls : List Event}

/-- **A connection is given back clean.** In every run in which what reaches the database of a text is contained,
no connection that was given back had anything left on it, or a transaction opened by SQL. -/
theorem hands_over_clean (hrun : Along step Confined (opened rules mode resetQuery) ls) :
    ∀ c ∈ (run step (opened rules mode resetQuery) ls).session.handed, c.left = [] ∧ c.block = false := by
  have hstart : (opened rules mode resetQuery).Guards mayShare fun c => c.clean = true :=
    (guarded_opened (P := fun c => c.clean = true) gate_mayShare rfl rules mode).guards
  have hend := hrun.invariant (I := World.Guards mayShare fun c => c.clean = true) ?_ hstart
  case refine_1 =>
    intro w e hw hconfined
    have hclose : ∀ c : Connection, c.clean = true →
        ({ c with tx := none, block := false, closed := true } : Connection).clean = true := fun c hc =>
      Connection.clean_of_ended (c := { c with closed := true }) none hc
    apply hw.step (P := fun c => c.clean = true) gate_mayShare rfl hclose
    rintro m luck writes rfl hphase s₁ hasks
    have hsharing : Sharing { w.session with writes } := (hw.serving hphase).alike ⟨rfl, rfl, rfl, rfl, rfl⟩
    exact hsharing.asks hasks (hconfined hphase)
  intro c hc
  have hclean := hend.handed c hc
  rw [Connection.clean, Bool.and_eq_true, List.isEmpty_iff] at hclean
  exact ⟨hclean.1, by simpa using hclean.2⟩

/-- A query that is given a connection back for, and one that keeps it. -/
theorem hands_over_clean_select :
    let ls := [Event.message (.query "select 1".toList) { ran := [.work none] } [],
      .message (.query "set work_mem = '1MB'".toList) { ran := [.work (some .sessionParameter)] } []]
    let w := run step (opened postgresqlRules .transaction none) ls
    w.session.handed.length = 2 ∧ w.session.conn.left = [.sessionParameter] ∧
      ∀ c ∈ w.session.handed, c.left = [] ∧ c.block = false :=
  ⟨by decide, by decide, hands_over_clean (by decide)⟩

/-- What follows the first semicolon of a text is not looked at. -/
theorem not_hands_over_clean :
    ¬ ∀ ls, ∀ c ∈ (run step (opened postgresqlRules .transaction none) ls).session.handed,
      c.left = [] ∧ c.block = false := by
  intro h
  have hleft := h [.message (.query "select 1; set work_mem = '1MB'".toList)
    { ran := [.work none, .work (some .sessionParameter)] } []]
  revert hleft
  decide

end Havuz.Jdbc
