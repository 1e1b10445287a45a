import Mathlib
import Havuz.Jdbc.Marks
import Havuz.Jdbc.Replies

/-!
# What a portal is bound to

A portal is meant to be fixed by the `Bind` that creates it. It keeps the values in the order of the text that its
statement had then, and the name of the statement. So an `Execute` of it runs that text as long as no other text is
parsed under the name (`portal_fixed`), and `not_portal_fixed` is what happens otherwise.
-/

namespace Havuz.Jdbc

open Lib

variable {s s' s₁ : Session} {luck : Luck} {m : Frontend}

/-! ## What a bind fixes -/

/-- What an `Execute` asks of the agent, with these values. -/
def Prepared.request (prepared : Prepared) (values : List Value) : Request :=
  match TransactionControl.of prepared.original with
  | some c => c.request
  | none => .execute prepared.rewritten.sql values

/-- Whether there is a connection for it. -/
def Session.goes (s : Session) (luck : Luck) (prepared : Prepared) : Bool :=
  (TransactionControl.of prepared.original).all s.needsBackend && s.borrows luck

/-- A statement as it was bound, with what the client sent. -/
structure Bound where
  prepared : Prepared
  sent : List Value
deriving DecidableEq

namespace Bound

/-- The values in the order of its text. -/
def values (b : Bound) : List Value := b.prepared.rewritten.order.map fun slot => (b.sent[slot]?).getD .null

def request (b : Bound) : Request := b.prepared.request b.values

end Bound

/-- What a message binds a portal to. -/
def World.binds (w : World) (portal : Text) : Event → Option Bound
  | .message (.bind name statement sent) _ _ =>
      if w.phase = .serving ∧ name = portal then
        (w.session.finds (.bind name statement sent)).map fun prepared => ⟨prepared, sent⟩
      else none
  | _ => none

/-- What the last `Bind` of a portal in a run has bound it to. -/
def created (w : World) (portal : Text) : List Event → Option Bound
  | [] => none
  | e :: ls => (created (step w e) portal ls).or (w.binds portal e)

theorem created_snoc (w : World) (portal : Text) (ls : List Event) (e : Event) :
    created w portal (ls ++ [e]) = ((run step w ls).binds portal e).or (created w portal ls) := by
  induction ls generalizing w with
  | nil => cases h : w.binds portal e <;> simp [created, h]
  | cons l ls ih => rw [List.cons_append, created, ih, run_cons, created, Option.or_assoc]

/-- The same text, as far as it is run. -/
structure SameText (prepared prepared' : Prepared) : Prop where
  rewritten : prepared.rewritten = prepared'.rewritten
  control : TransactionControl.of prepared.original = TransactionControl.of prepared'.original

/-- No text is parsed under a name to which a portal is bound, but the one that it had; and a text that is run has
no question marks of its own. -/
def Steady (w : World) : Event → Prop
  | .message (.parse name sql) luck _ =>
      w.phase = .serving → w.session.failed = false → w.session.describes luck = true →
        ∀ e ∈ w.session.portals.entries, e.2.statement = name → ∀ prepared ∈ w.session.statements.get name,
          toJdbc sql = prepared.rewritten ∧ TransactionControl.of sql = TransactionControl.of prepared.original
  | .message (.execute name) _ _ =>
      w.phase = .serving → w.session.failed = false → ∀ portal ∈ w.session.portals.get name,
        ∀ prepared ∈ w.session.statements.get portal.statement,
          TransactionControl.of prepared.original = none → strays prepared.original = 0
  | _ => True

instance (w : World) (e : Event) : Decidable (Steady w e) := by
  unfold Steady
  split <;> infer_instance

/-! ## The tables -/

/-- The tables of statements and portals are the same. -/
structure SameTables (s s' : Session) : Prop where
  statements : s'.statements = s.statements
  portals : s'.portals = s.portals

/-- What a message does to the tables. -/
theorem onMessage_does (luck : Luck) (m : Frontend) (s : Session) :
    Triple (fun s' => s' = s) (onMessage luck m) (fun _ s' => ∃ s₁, Does luck m s s₁ ∧ SameTables s₁ s')
      (fun s' => ∃ s₁, Does luck m s s₁ ∧ SameTables s₁ s') := by
  have hserved : ∀ {m' : Frontend} {simple : Bool} {s s' : Session}, Served luck m' simple s s' →
      ∃ s₁, Does luck m' s s₁ ∧ SameTables s₁ s' :=
    fun ⟨s₁, hdoes, hreadied⟩ => ⟨s₁, hdoes, hreadied.statements, hreadied.portals⟩
  have hhandled : ∀ {m' : Frontend} {simple : Bool} {s s' : Session}, Handled luck m' simple s s' →
      ∃ s₁, Does luck m' s s₁ ∧ SameTables s₁ s' :=
    fun ⟨s₁, hdoes, hanswering⟩ => ⟨s₁, hdoes, hanswering.statements, hanswering.portals⟩
  by_cases hkind : ∀ tag, m ≠ .other tag
  · apply (onMessage_handled luck hkind s).conseq (fun _ h => h)
    · intro _ s' h
      split at h
      · exact hserved h
      · exact hhandled h
    · exact fun _ h => hhandled h
  · push Not at hkind
    obtain ⟨tag, rfl⟩ := hkind
    have hnothing : ∀ {s' : Session}, Answering false s s' → ∃ s₁, Does luck (.other tag) s s₁ ∧ SameTables s₁ s' :=
      fun h => ⟨s, .nothing rfl, h.statements, h.portals⟩
    have hsync : ∀ {s₀ s' : Session}, Answering false s s₀ → (∃ s₁, Does luck .sync s₀ s₁ ∧ SameTables s₁ s') →
        ∃ s₁, Does luck (.other tag) s s₁ ∧ SameTables s₁ s' := by
      rintro s₀ s' hanswering ⟨s₁, hdoes, htables⟩
      have hsame : SameTables s₀ s₁ := by
        cases hdoes with
        | nothing _ => exact ⟨rfl, rfl⟩
        | asks _ hasking => exact ⟨hasking.statements, hasking.portals⟩
        | syncs => exact ⟨rfl, rfl⟩
      exact ⟨s, .nothing rfl, (htables.statements.trans hsame.statements).trans hanswering.statements,
        (htables.portals.trans hsame.portals).trans hanswering.portals⟩
    unfold onMessage
    apply Triple.bind ((answers_fail _ _).start.conseq (fun _ h => h) (fun _ _ h => h) fun _ h => hnothing h)
    intro _
    apply Triple.of_state
    intro s₀ hanswering
    have hserves : Triple (fun s' => s' = s₀) sync (fun _ => Served luck .sync false s₀) (Handled luck .sync false s₀) :=
      sync_served
    exact hserves.conseq (fun _ h => h) (fun _ _ h => hsync hanswering (hserved h)) fun _ h => hsync hanswering (hhandled h)

/-! ## What is asked -/

theorem execute_asked {name : Text} {portal : Portal} {prepared : Prepared} (hfailed : s.failed = false)
    (hportal : s.portals.get name = some portal) (hprepared : s.statements.get portal.statement = some prepared) :
    Triple (fun s' => s' = s) (execute luck name)
      (fun _ s' => s'.asked = s.asked ++ if s.goes luck prepared then [prepared.request portal.values] else [])
      (fun s' => s'.asked = s.asked ++ if s.goes luck prepared then [prepared.request portal.values] else []) := by
  -- an answer asks for nothing more
  have hanswers : ∀ {requests : List Request} {s₁ : Session} {c : Serve Unit}, Asking requests s s₁ →
      Answers false s₁ c → Triple (fun s' => s' = s₁) c (fun _ s' => s'.asked = s.asked ++ requests)
        (fun s' => s'.asked = s.asked ++ requests) :=
    fun hasking hc => hc.start.conseq (fun _ h => h) (fun _ _ h => h.asked.trans hasking.asked)
      fun _ h => h.asked.trans hasking.asked
  apply Triple.get_bind
  rintro s rfl
  simp only [hfailed, hportal, hprepared, if_false, Bool.false_eq_true]
  split
  case h_1 c hc =>
    have hgoes : s.goes luck prepared = (s.needsBackend c && s.borrows luck) := by rw [Session.goes, hc]; rfl
    have hrequest : prepared.request portal.values = c.request := by rw [Prepared.request, hc]
    rw [hgoes, hrequest]
    apply Triple.bind ((control_asking luck c s).conseq (fun _ h => h) (fun _ _ h => h) (fun _ h => h.elim))
    intro r
    apply Triple.of_state
    intro s₁ hasking
    cases r with
    | error e => exact hanswers hasking (answers_fail _ _)
    | ok _ => exact hanswers hasking (answers_write rfl (by simp [Reply.isError]))
  case h_2 hc =>
    have hgoes : s.goes luck prepared = s.borrows luck := by rw [Session.goes, hc]; rfl
    have hrequest : prepared.request portal.values = .execute prepared.rewritten.sql portal.values := by
      rw [Prepared.request, hc]
    rw [hgoes, hrequest]
    apply Triple.bind ((runSql_asking luck _ _ s).conseq (fun _ h => h) (fun _ _ h => h) (fun _ h => h.elim))
    intro r
    apply Triple.of_state
    intro s₁ hasking
    cases r with
    | error e => exact hanswers hasking (answers_fail _ _)
    | ok outcome => exact hanswers hasking (answers_emit _ _ _)

/-! ## Runs -/

/-- What a portal is, if it is what it was bound to. -/
def Portal.Holds (portal : Portal) (s : Session) (b : Bound) : Prop :=
  portal.values = b.values ∧ ∃ prepared, s.statements.get portal.statement = some prepared ∧
    SameText prepared b.prepared

/-- Each statement was rewritten from its text, and each portal is what it was bound to. -/
structure Fixed (binding : Text → Option Bound) (s : Session) : Prop where
  rewritten : ∀ name prepared, s.statements.get name = some prepared → prepared.rewritten = toJdbc prepared.original
  portals : ∀ name portal, s.portals.get name = some portal → ∃ b, binding name = some b ∧ portal.Holds s b

theorem Fixed.sameTables {binding : Text → Option Bound} (h : Fixed binding s) (htables : SameTables s s') :
    Fixed binding s' := by
  obtain ⟨hrewritten, hportals⟩ := h
  refine ⟨fun name => ?_, fun name => ?_⟩
  · rw [htables.statements]
    exact hrewritten name
  · unfold Portal.Holds
    rw [htables.statements, htables.portals]
    exact hportals name

variable {w : World}

/-- What a message does leaves the portals what they were bound to, if no other text is parsed. -/
theorem Fixed.does {binding : Text → Option Bound} {writes : List Bool} (h : Fixed binding w.session)
    (hphase : w.phase = .serving) (hsteady : Steady w (.message m luck writes))
    (hdoes : Does luck m { w.session with writes } s₁) :
    Fixed (fun name => (w.binds name (.message m luck writes)).or (binding name)) s₁ := by
  have hunbound : (Session.finds { w.session with writes } m = none) →
      (fun name => (w.binds name (.message m luck writes)).or (binding name)) = binding := by
    intro hfinds
    funext name
    cases m with
    | bind portal statement sent =>
        change (if w.phase = .serving ∧ portal = name then
          (Session.finds { w.session with writes } (.bind portal statement sent)).map fun prepared => Bound.mk prepared sent
          else none).or (binding name) = binding name
        rw [hfinds]
        split <;> rfl
    | _ => rfl
  cases hdoes with
  | nothing hfinds =>
      rw [hunbound hfinds]
      exact h.sameTables ⟨rfl, rfl⟩
  | asks hfinds hasking =>
      rw [hunbound hfinds]
      exact h.sameTables ⟨hasking.statements, hasking.portals⟩
  | @parses name sql _ s₁ columns params requests hfailed hdescribes hasking =>
      rw [hunbound rfl]
      refine ⟨fun other prepared hget => ?_, fun other portal hget => ?_⟩
      · simp only [SortedMap.get_insert, hasking.statements] at hget
        split at hget
        case isTrue =>
          cases hget
          rfl
        case isFalse => exact h.rewritten other prepared hget
      · simp only [hasking.portals] at hget
        obtain ⟨b, hbinding, hvalues, prepared, hprepared, hsame⟩ := h.portals other portal hget
        refine ⟨b, hbinding, hvalues, ?_⟩
        simp only [SortedMap.get_insert, hasking.statements]
        by_cases hname : portal.statement = name
        · -- the text that is parsed is the one the portal was bound to
          have hmem : (other, portal) ∈ w.session.portals.entries := SortedMap.mem_of_get hget
          obtain ⟨hrewritten, hcontrol⟩ :=
            hsteady hphase hfailed hdescribes _ hmem hname prepared (by rw [← hname]; exact hprepared)
          rw [if_pos hname]
          exact ⟨_, rfl, hrewritten.trans hsame.rewritten, hcontrol.trans hsame.control⟩
        · rw [if_neg hname]
          exact ⟨prepared, hprepared, hsame⟩
  | @binds name statement sent _ prepared hfinds =>
      refine ⟨h.rewritten, fun other portal hget => ?_⟩
      have hbinds : w.binds other (.message (.bind name statement sent) luck writes) =
          if name = other then some ⟨prepared, sent⟩ else none := by
        change (if w.phase = .serving ∧ name = other then
          (Session.finds { w.session with writes } (.bind name statement sent)).map fun prepared => Bound.mk prepared sent
          else none) = _
        rw [hfinds]
        simp [hphase]
      simp only [SortedMap.get_insert] at hget
      split at hget
      case isTrue hname =>
        cases hget
        have hprepared : w.session.statements.get statement = some prepared := by
          change (if w.session.failed then none else w.session.statements.get statement) = some prepared at hfinds
          split at hfinds
          · cases hfinds
          · exact hfinds
        exact ⟨⟨prepared, sent⟩, by rw [hbinds, if_pos hname.symm]; rfl, rfl, prepared, hprepared, rfl, rfl⟩
      case isFalse hname =>
        rw [hbinds, if_neg fun heq => hname heq.symm]
        exact h.portals other portal hget
  | @closes ofStatement name _ =>
      rw [hunbound rfl]
      cases ofStatement with
      | false =>
          refine ⟨h.rewritten, fun other portal hget => ?_⟩
          simp only [Session.closed, Bool.false_eq_true, if_false, SortedMap.get_erase] at hget
          split at hget
          · cases hget
          · exact h.portals other portal hget
      | true =>
          -- the portals of the statement are closed with it
          refine ⟨fun other prepared hget => ?_, fun other portal hget => ?_⟩
          · simp only [Session.closed, if_true, SortedMap.get_erase] at hget
            split at hget
            · cases hget
            · exact h.rewritten other prepared hget
          · simp only [Session.closed, if_true] at hget
            obtain ⟨hportal, hname⟩ := SortedMap.get_filter_eq_some.mp hget
            obtain ⟨b, hbinding, hvalues, prepared, hprepared, hsame⟩ := h.portals other portal hportal
            refine ⟨b, hbinding, hvalues, prepared, ?_, hsame⟩
            simp only [Session.closed, if_true, SortedMap.get_erase]
            rw [if_neg (by simpa using hname)]
            exact hprepared
  | syncs => exact h.sameTables ⟨rfl, rfl⟩

/-- **Step lemma.** A session that serves has its portals as they were bound. -/
theorem fixed_step {binding : Text → Option Bound} {e : Event} (h : w.phase = .serving → Fixed binding w.session)
    (hsteady : Steady w e) :
    (step w e).phase = .serving → Fixed (fun name => (w.binds name e).or (binding name)) (step w e).session := by
  unfold step
  split
  case h_1 => simp
  case h_2 m luck writes _ hphase =>
    intro _
    apply World.after_session
    have hdoes : ∀ s', (∃ s₁, Does luck m { w.session with writes } s₁ ∧ SameTables s₁ s') →
        Fixed (fun name => (w.binds name (.message m luck writes)).or (binding name)) s' :=
      fun s' ⟨s₁, hdoes, htables⟩ => ((h hphase).does hphase hsteady hdoes).sameTables htables
    exact (onMessage_does luck m _).conseq (fun _ hs => hs) (fun _ s' hs => hdoes s' hs) hdoes
  case h_3 => simp
  case h_4 => simp
  case h_5 luck hphase =>
    split
    case isFalse => exact h
    case isTrue =>
      dsimp only
      obtain ⟨_, s', habandon, -⟩ := (abandon_tried luck (w.session.toldFatal _ _)).returns
      rw [habandon]
      simp [World.after]
  case h_6 failed luck retire hphase =>
    split
    case isFalse => simp
    case isTrue hheld =>
      obtain ⟨clean, s', hrecycle, -⟩ := (recycle_recycled w.resetQuery failed luck hheld).returns
      rw [hrecycle]
      exact fun hserving => absurd hserving (w.giveBack_ok clean retire s').2
  case h_7 => simp
  case h_8 commits =>
    intro hphase
    apply (h hphase).sameTables
    unfold Session.closeHeld
    split <;> exact ⟨rfl, rfl⟩
  case h_9 e _ _ _ _ hmessage _ _ _ _ _ =>
    intro hphase
    cases e with
    | message m luck writes => exact (hmessage m luck writes hphase rfl).elim
    | _ => exact h hphase

variable {rules : SessionRules} {mode : PoolMode} {resetQuery : Option Text} {ls : List Event} {writes : List Bool}

/-- **A portal is fixed when it is bound.** In every run in which no other text is parsed under the name of a statement
to which a portal is bound, an `Execute` asks for the text and the values of its portal as they were bound, and the
text has a placeholder for each value. -/
theorem portal_fixed {name : Text}
    (hrun : Along step Steady (opened rules mode resetQuery) (ls ++ [.message (.execute name) luck writes])) :
    let w := run step (opened rules mode resetQuery) ls
    let w' := step w (.message (.execute name) luck writes)
    w.phase = .serving → w.session.failed = false → ∀ portal ∈ w.session.portals.get name,
      ∃ b, created (opened rules mode resetQuery) name ls = some b ∧
        (w'.session.asked = w.session.asked ++ if w.session.goes luck b.prepared then [b.request] else []) ∧
        ∀ sql values, b.request = .execute sql values → values.length = marks sql := by
  intro w w' hphase hfailed portal hportal
  obtain ⟨hbefore, hlast, -⟩ := Along.append.mp hrun
  have hstart : (opened rules mode resetQuery).phase = .serving →
      Fixed (fun name => created (opened rules mode resetQuery) name []) (opened rules mode resetQuery).session := by
    have hopened := unseen_releaseIfIdle { rules, flow := { mode }, held := some {} }
    have hempty : Fixed (fun _ => none) { rules, flow := { mode }, held := some {} } := ⟨by simp, by simp⟩
    exact fun _ => hempty.sameTables ⟨hopened.statements, hopened.portals⟩
  -- the run so far goes with the state, as the bindings are read off it
  let I (ls : List Event) (w : World) : Prop := w = run step (opened rules mode resetQuery) ls ∧
    (w.phase = .serving → Fixed (fun name => created (opened rules mode resetQuery) name ls) w.session)
  have hsteps : ∀ ls w e, I ls w → Steady w e → I (ls ++ [e]) (step w e) := by
    rintro ls _ e ⟨rfl, hfixed⟩ hsteady
    refine ⟨by rw [run_append, run_cons, run_nil], ?_⟩
    simp only [created_snoc]
    exact fixed_step hfixed hsteady
  have hhistory : I ([] ++ ls) w := hbefore.history hsteps ⟨rfl, hstart⟩
  have hfixed := hhistory.2 hphase
  rw [List.nil_append] at hfixed
  obtain ⟨b, hcreated, hvalues, prepared, hprepared, hsame⟩ := hfixed.portals name portal hportal
  refine ⟨b, hcreated, ?_, ?_⟩
  · have hstep : w' = w.after (onMessage luck (.execute name) { w.session with writes }) .serving (.left true) := by
      change step w _ = _
      rw [step]
      · simp
      · exact hphase
    have hasked : Triple (fun s' => s' = { w.session with writes }) (execute luck name) _ _ :=
      execute_asked hfailed hportal hprepared
    have hgoes : Session.goes { w.session with writes } luck prepared = w.session.goes luck b.prepared := by
      rw [Session.goes, hsame.control]
      rfl
    have hrequest : prepared.request portal.values = b.request := by
      rw [Bound.request, Prepared.request, Prepared.request, hsame.control, hsame.rewritten, hvalues]
    rw [hgoes, hrequest] at hasked
    rw [hstep]
    exact World.after_session hasked
  · intro sql values hrequest
    unfold Bound.request Prepared.request at hrequest
    split at hrequest
    case h_1 c _ => cases c <;> cases hrequest
    case h_2 hcontrol =>
      cases hrequest
      have hstrays := hlast hphase hfailed portal hportal prepared hprepared (hsame.control.trans hcontrol)
      have hmarks := marks_toJdbc prepared.original
      rw [← hfixed.rewritten _ _ hprepared, hsame.rewritten, hstrays] at hmarks
      rw [hmarks, Bound.values, List.length_map]
      rfl

/-- A text with a placeholder, bound and executed. -/
theorem portal_fixed_bound :
    let ls := [Event.message (.parse [] "$1".toList) {} [], .message (.bind [] [] [.null]) {} []]
    let w := run step (opened postgresqlRules .transaction none) ls
    let w' := step w (.message (.execute []) {} [])
    w.session.portals.get [] = some ⟨[], [.null]⟩ ∧
      ∃ b, created (opened postgresqlRules .transaction none) [] ls = some b ∧
        (w'.session.asked = w.session.asked ++ if w.session.goes {} b.prepared then [b.request] else []) ∧
        ∀ sql values, b.request = .execute sql values → values.length = marks sql :=
  ⟨by decide, portal_fixed (by decide) (by decide) (by decide) ⟨[], [.null]⟩ (by decide)⟩

/-- The unnamed statement is parsed again between `Bind` and `Execute`, and its new text is run, with no
placeholder for the value. -/
theorem not_portal_fixed :
    ¬ ∀ ls name, let w := run step (opened postgresqlRules .transaction none) ls
      let w' := step w (.message (.execute name) {} [])
      w.phase = .serving → w.session.failed = false → ∀ portal ∈ w.session.portals.get name,
        ∃ b, created (opened postgresqlRules .transaction none) name ls = some b ∧
          (w'.session.asked = w.session.asked ++ if w.session.goes {} b.prepared then [b.request] else []) ∧
          ∀ sql values, b.request = .execute sql values → values.length = marks sql := by
  intro h
  obtain ⟨b, hcreated, hasked, -⟩ := h [.message (.parse [] "$1".toList) {} [], .message (.bind [] [] [.null]) {} [],
    .message (.parse [] "a".toList) {} []] [] (by decide) (by decide) ⟨[], [.null]⟩ (by decide)
  have hbound : created (opened postgresqlRules .transaction none) []
      [.message (.parse [] "$1".toList) {} [], .message (.bind [] [] [.null]) {} [],
        .message (.parse [] "a".toList) {} []] =
      some ⟨⟨toJdbc "$1".toList, "$1".toList, [], 1⟩, [.null]⟩ := by decide
  rw [hbound] at hcreated
  cases hcreated
  revert hasked
  decide

end Havuz.Jdbc
