import Mathlib
import Havuz.Sql.Pins
import Havuz.Sql.Permissions
import Havuz.Registry

/-!
# Two classifiers of one text

Reference: `POSTGRESQL_RULES` of `havuz-registry/src/jdbc.rs`, `classify` of `session.rs`, `sql_pin_reason` and
`actions_for_sql` of `havuz-pg`.

The profile says of itself that it mirrors the native classifier. That one cuts a text into statements and reads each of
them; the profile reads the first six words of the whole text. Once these begin with words it calls shareable, nothing
behind them counts (`classify_eq_none`), so the profile is as strict as the native classifier for exactly the texts that
begin otherwise, or in which no statement concerns more than its transaction (`strict_iff`).
-/

namespace Havuz.Jdbc

open Sql

/-! ## The profile -/

section Best

variable {head words : Text} {best : Option (ℕ × Option PinReason)}

theorem prefix_of_startsWithWords (h : startsWithWords head words = true) : words <+: head := by
  rw [startsWithWords, Text.stripPrefix] at h
  split_ifs at h with hstarts
  exact List.isPrefixOf_iff_prefix.mp hstarts

theorem better_of_not (h : startsWithWords head words = false) (verdict : Option PinReason) :
    SessionRules.better head words verdict best = best := by
  rw [SessionRules.better, h]
  rfl

/-- The best of the pin rules is one of them, and it matches. -/
theorem foldl_pins (pins : List PinRule) :
    pins.foldl (fun best rule => SessionRules.better head rule.words (some rule.reason) best) best = best ∨
      ∃ rule ∈ pins, startsWithWords head rule.words = true ∧
        pins.foldl (fun best rule => SessionRules.better head rule.words (some rule.reason) best) best =
          some (rule.words.length, some rule.reason) := by
  induction pins generalizing best with
  | nil => exact .inl rfl
  | cons rule pins ih =>
      rw [List.foldl_cons]
      obtain hsame | ⟨rule', hmem, hstarts, hbest⟩ := @ih (SessionRules.better head rule.words (some rule.reason) best)
      · rw [hsame, SessionRules.better]
        split_ifs with hwins
        · exact .inr ⟨rule, List.mem_cons_self, (Bool.and_eq_true_iff.mp hwins).1, rfl⟩
        · exact .inl rfl
      · exact .inr ⟨rule', List.mem_cons_of_mem _ hmem, hstarts, hbest⟩

theorem foldl_shareable_of_not (l : List Text) (h : ∀ w ∈ l, startsWithWords head w = false) :
    l.foldl (fun best safe => SessionRules.better head safe none best) best = best := by
  induction l with
  | nil => rfl
  | cons w l ih =>
      obtain ⟨hw, hl⟩ := List.forall_mem_cons.mp h
      rw [List.foldl_cons, better_of_not hw, ih hl]

/-- Nothing in the second list takes the verdict back. -/
theorem foldl_shareable_none (l : List Text) (n : ℕ) :
    ∃ m, l.foldl (fun best safe => SessionRules.better head safe none best) (some (n, none)) = some (m, none) := by
  induction l generalizing n with
  | nil => exact ⟨n, rfl⟩
  | cons w l ih =>
      rw [List.foldl_cons, SessionRules.better]
      split_ifs with hwins
      · exact ih w.length
      · exact ih n

/-- Shareable words that match beat whatever is shorter. -/
theorem foldl_shareable {l : List Text} (hmem : words ∈ l) (hstarts : startsWithWords head words = true)
    (hbest : ∀ b, best = some b → b.2 = none ∨ b.1 < words.length) :
    ∃ m, l.foldl (fun best safe => SessionRules.better head safe none best) best = some (m, none) := by
  induction l generalizing best with
  | nil => cases hmem
  | cons w l ih =>
      rw [List.foldl_cons, SessionRules.better]
      split_ifs with hwins
      · exact foldl_shareable_none l w.length
      · obtain rfl | hmem := List.mem_cons.mp hmem
        · -- the words match and do not win: the verdict is there already
          rw [hstarts, Bool.true_and] at hwins
          match best, hbest, hwins with
          | none, _, hwins => exact absurd rfl hwins
          | some (n, verdict), hbest, hwins =>
              obtain hnone | hlt := hbest _ rfl
              · obtain rfl : verdict = none := hnone
                exact foldl_shareable_none l n
              · exact absurd (decide_eq_true hlt) hwins
        · exact ih hmem hbest

end Best

/-- Where both lists speak of the same words, the second one is the more specific. -/
theorem shareable_longer : ∀ rule ∈ postgresqlRules.pins, ∀ w ∈ postgresqlRules.shareable,
    (rule.words.isPrefixOf w || w.isPrefixOf rule.words) = true → rule.words.length < w.length := by decide

/-- Whether the leading words of a text begin with words the profile calls shareable. -/
def beginsShareable (sql : Text) : Bool := postgresqlRules.shareable.any (startsWithWords (leadingWords6 sql))

/-- The profile lets a text through by its leading words alone. -/
theorem classify_eq_none (sql : Text) : postgresqlRules.classify sql = none ↔ beginsShareable sql = true := by
  have hclassifies : postgresqlRules.classifies = true := rfl
  rw [SessionRules.classify, hclassifies, beginsShareable, List.any_eq_true]
  simp only [Bool.not_true, Bool.false_eq_true, if_false]
  have hpins := @foldl_pins (leadingWords6 sql) none postgresqlRules.pins
  constructor
  · intro hnone
    by_contra hshare
    push Not at hshare
    rw [foldl_shareable_of_not _ fun w hw => Bool.eq_false_iff.mpr (hshare w hw)] at hnone
    obtain hempty | ⟨rule, -, -, hbest⟩ := hpins
    · rw [hempty] at hnone
      cases hnone
    · rw [hbest] at hnone
      cases hnone
  · rintro ⟨w, hw, hstarts⟩
    have hbeaten : ∀ b, postgresqlRules.pins.foldl (fun best rule =>
        SessionRules.better (leadingWords6 sql) rule.words (some rule.reason) best) none = some b →
          b.2 = none ∨ b.1 < w.length := by
      intro b hb
      obtain hempty | ⟨rule, hrule, hmatch, hbest⟩ := hpins
      · rw [hempty] at hb
        cases hb
      · -- both stand at the front of the same words, so one continues the other
        rw [hbest] at hb
        cases hb
        refine .inr (shareable_longer rule hrule w hw ?_)
        rw [Bool.or_eq_true, List.isPrefixOf_iff_prefix, List.isPrefixOf_iff_prefix]
        exact List.prefix_or_prefix_of_prefix (prefix_of_startsWithWords hmatch) (prefix_of_startsWithWords hstarts)
    obtain ⟨m, hm⟩ := foldl_shareable hw hstarts hbeaten
    rw [hm]

/-! ## The native classifier -/

/-- What `SET` may be followed by and concern the transaction only. -/
def transactionWords : List Text := ["LOCAL".toList, "TRANSACTION".toList]

/-- The statement is a `RESET`, or a `SET` of more than the transaction: `SESSION` in front of the name is noise. -/
def changesSession (s : Text) : Bool :=
  let (keyword, rest) := takeWord (normalizeStatement s)
  let upper := Text.toAsciiUppercase keyword
  upper = "RESET".toList ||
    (upper = "SET".toList && Text.toAsciiUppercase (setTarget (rest.length + 1) rest).1 ∉ transactionWords)

/-- The first four words of a statement, in upper case. -/
def opening (s : Text) : List Text := ((Text.splitWhitespace (stripLeadingNoise s)).map Text.toAsciiUppercase).take 4

/-- Statements that hold on to their connection by their first word. -/
def holdingWords : List Text :=
  ["LISTEN".toList, "UNLISTEN".toList, "PREPARE".toList, "DEALLOCATE".toList, "COPY".toList]

/-- `TEMP` or `TEMPORARY`, with or without `GLOBAL` or `LOCAL` in front. -/
def namesTemporary (words : List Text) : Bool :=
  isTemp words[0]? || ((words[0]? = some "GLOBAL".toList || words[0]? = some "LOCAL".toList) && isTemp words[1]?)

/-- The statement leaves its connection with something other than a parameter. -/
def holdsConnection (s : Text) : Bool :=
  let first := (opening s).head?.getD []
  let behind := (opening s).tail
  first ∈ holdingWords || (first = "CREATE".toList && namesTemporary behind) ||
    (first = "DECLARE".toList && Text.contains (Text.toAsciiUppercase (stripLeadingNoise s)) "WITH HOLD".toList) ||
    (first = "START".toList && behind.head? = some "REPLICATION".toList) ||
    (first ∉ decidedByFirst && mentionsSessionAdvisoryLock (stripLeadingNoise s))

theorem classifySetParameter_ne_none (statement first afterFirst : Text) :
    classifySetParameter statement first afterFirst ≠ .none := by
  unfold classifySetParameter
  split
  · simp
  · split
    · simp
    · split_ifs <;> simp [track]

/-- A word other than `SESSION` is where the name is looked for. -/
theorem setTarget_of_ne {rest : Text} (h : Text.toAsciiUppercase (takeWord rest).1 ≠ "SESSION".toList) (fuel : ℕ) :
    (setTarget fuel rest).1 = [] ∨ (setTarget fuel rest).1 = (takeWord rest).1 := by
  cases fuel with
  | zero => exact .inl rfl
  | succ fuel =>
      rw [setTarget]
      dsimp only
      rw [if_neg h]
      exact .inr rfl

/-- Behind `SESSION` neither of two more keywords concerns the transaction. -/
theorem setTarget_not_transaction {rest k : Text} (hk : k = "AUTHORIZATION".toList ∨ k = "CHARACTERISTICS".toList)
    (h : Text.toAsciiUppercase (takeWord rest).1 = k) (fuel : ℕ) :
    Text.toAsciiUppercase (setTarget fuel rest).1 ∉ transactionWords := by
  have hne : Text.toAsciiUppercase (takeWord rest).1 ≠ "SESSION".toList := by
    rw [h]
    obtain rfl | rfl := hk <;> decide
  obtain hempty | hword := setTarget_of_ne hne fuel
  · rw [hempty]
    decide
  · rw [hword, h]
    obtain rfl | rfl := hk <;> decide

/-- A `SET` is passed over only behind `LOCAL` or `TRANSACTION`. -/
theorem classifySetBody_eq_none {fuel : ℕ} {statement rest : Text} :
    classifySetBody fuel statement rest = .none ↔ Text.toAsciiUppercase (setTarget fuel rest).1 ∈ transactionWords := by
  induction fuel generalizing rest with
  | zero =>
      have hempty : Text.toAsciiUppercase [] ∉ transactionWords := by decide
      exact ⟨fun h => (by cases h), fun h => absurd h hempty⟩
  | succ fuel ih =>
      rw [classifySetBody, setTarget]
      dsimp only
      by_cases hsession : Text.toAsciiUppercase (takeWord rest).1 = "SESSION".toList
      · rw [hsession, if_neg (by decide), if_neg (by decide), if_neg (by decide), if_pos rfl, if_pos rfl]
        split_ifs with hauth hchar
        · exact ⟨fun h => (by cases h), fun h => absurd h (setTarget_not_transaction (.inl rfl) hauth fuel)⟩
        · exact ⟨fun h => (by cases h), fun h => absurd h (setTarget_not_transaction (.inr rfl) hchar fuel)⟩
        · exact ih
      · rw [if_neg hsession, if_neg hsession]
        have hscope : Text.toAsciiUppercase (takeWord rest).1 ∈ transactionWords ↔
            Text.toAsciiUppercase (takeWord rest).1 = "LOCAL".toList ∨
              Text.toAsciiUppercase (takeWord rest).1 = "TRANSACTION".toList := by
          simp only [transactionWords, List.mem_cons, List.not_mem_nil, or_false]
        rw [hscope]
        split_ifs with hscoped hrole hconstraints htime hnames hschema hxml
        · exact ⟨fun _ => hscoped, fun _ => rfl⟩
        · exact ⟨fun h => (by cases h), fun h => absurd h hscoped⟩
        · exact ⟨fun h => (by cases h), fun h => absurd h hscoped⟩
        · exact ⟨fun h => (by cases h), fun h => absurd h hscoped⟩
        · exact ⟨fun h => (by cases h), fun h => absurd h hscoped⟩
        · exact ⟨fun h => (by cases h), fun h => absurd h hscoped⟩
        · exact ⟨fun h => (by cases h), fun h => absurd h hscoped⟩
        · exact ⟨fun h => (classifySetParameter_ne_none _ _ _ h).elim, fun h => absurd h hscoped⟩

theorem classifyResetBody_ne_none (rest : Text) : classifyResetBody rest ≠ .none := by
  unfold classifyResetBody
  dsimp only
  split_ifs <;> simp

/-- A statement is no parameter statement unless it changes the session. -/
theorem classifySet_eq_none (s : Text) : classifySet s = .none ↔ changesSession s = false := by
  rw [classifySet, changesSession]
  dsimp only
  split_ifs with hempty hset hreset
  · -- an empty text has no keyword
    rw [List.isEmpty_iff.mp hempty]
    exact ⟨fun _ => rfl, fun _ => rfl⟩
  · rw [classifySetBody_eq_none, hset]
    simp
  · rw [hreset]
    exact ⟨fun h => absurd h (classifyResetBody_ne_none _), fun h => (by cases h)⟩
  · rw [decide_eq_false hset, decide_eq_false hreset]
    exact ⟨fun _ => rfl, fun _ => rfl⟩

theorem opening_eq (s : Text) : Text.splitWhitespace (leadingWords (stripLeadingNoise s) 4) = opening s :=
  splitWhitespace_leadingWords ..

/-- A `SET` or `RESET` that pins is a parameter statement. -/
theorem statementPinReason_of_set {s : Text}
    (h : (opening s).head? = some "SET".toList ∨ (opening s).head? = some "RESET".toList) :
    (statementPinReason s).isSome = true → classifySet s ≠ .none := by
  intro hsome hnone
  rw [statementPinReason] at hsome
  dsimp only at hsome
  rw [opening_eq, classifySet_strip, hnone, if_pos h] at hsome
  split_ifs at hsome
  all_goals cases hsome

theorem isSome_ite {c : Prop} [Decidable c] (reason : PinReason) : (if c then some reason else none).isSome = true ↔ c := by
  split_ifs with hc
  · exact ⟨fun _ => hc, fun _ => rfl⟩
  · exact ⟨fun h => (by cases h), fun h => absurd h hc⟩

theorem namesTemporary_iff (first : Text) (behind : List Text) :
    (isTemp (first :: behind)[1]? = true ∨
      ((first :: behind)[1]? = some "GLOBAL".toList ∨ (first :: behind)[1]? = some "LOCAL".toList) ∧
        isTemp (first :: behind)[2]? = true) ↔ namesTemporary behind = true := by
  rw [namesTemporary, List.getElem?_cons_succ, List.getElem?_cons_succ]
  simp only [Bool.or_eq_true, Bool.and_eq_true, decide_eq_true_eq]

/-- A statement other than `SET` and `RESET` pins where it holds on to its connection. -/
theorem statementPinReason_of_not_set {s : Text}
    (h : ¬ ((opening s).head? = some "SET".toList ∨ (opening s).head? = some "RESET".toList)) :
    (statementPinReason s).isSome = true ↔ holdsConnection s = true := by
  rw [statementPinReason, holdsConnection]
  dsimp only
  rw [opening_eq, if_neg h]
  by_cases hempty : stripLeadingNoise s = []
  · rw [opening, hempty]
    decide
  · rw [if_neg (by simpa using hempty)]
    simp only [Bool.or_eq_true, Bool.and_eq_true, decide_eq_true_eq]
    generalize stripLeadingNoise s = t
    match opening s, h with
    | [], _ => simp [decidedByFirst, holdingWords]
    | first :: behind, h =>
        rw [List.head?_cons, Option.some.injEq, Option.some.injEq, not_or] at h
        simp only [List.head?_cons, Option.some.injEq, List.tail_cons, Option.getD_some, namesTemporary_iff]
        by_cases hholding : first ∈ holdingWords
        · refine ⟨fun _ => .inl (.inl (.inl (.inl hholding))), fun _ => ?_⟩
          simp only [holdingWords, List.mem_cons, List.not_mem_nil, or_false] at hholding
          obtain rfl | rfl | rfl | rfl | rfl := hholding <;> rfl
        by_cases hcreate : first = "CREATE".toList
        · subst hcreate
          rw [if_neg (by decide), if_pos rfl, isSome_ite]
          refine ⟨fun htemp => .inl (.inl (.inl (.inr ⟨rfl, htemp⟩))), ?_⟩
          rintro ((((hin | ⟨-, htemp⟩) | ⟨hfirst, -⟩) | ⟨hfirst, -⟩) | ⟨hout, -⟩)
          · exact absurd hin hholding
          · exact htemp
          · exact absurd hfirst (by decide)
          · exact absurd hfirst (by decide)
          · exact absurd (by decide) hout
        by_cases hdeclare : first = "DECLARE".toList
        · subst hdeclare
          rw [if_neg (by decide), if_neg (by decide), if_neg (by decide), if_neg (by decide), if_pos rfl, isSome_ite]
          refine ⟨fun hhold => .inl (.inl (.inr ⟨rfl, hhold⟩)), ?_⟩
          rintro ((((hin | ⟨hfirst, -⟩) | ⟨-, hhold⟩) | ⟨hfirst, -⟩) | ⟨hout, -⟩)
          · exact absurd hin hholding
          · exact absurd hfirst (by decide)
          · exact hhold
          · exact absurd hfirst (by decide)
          · exact absurd (by decide) hout
        have hother : first ∉ decidedByFirst := by
          simp only [decidedByFirst, List.mem_cons, List.not_mem_nil, or_false, not_or]
          exact ⟨h.1, h.2, hcreate, hdeclare⟩
        have hsecond : (first :: behind)[1]? = behind.head? := by cases behind <;> rfl
        simp only [hholding, hcreate, hdeclare, hother, hsecond, not_false_iff, true_and, false_and, false_or, if_false]
        simp only [holdingWords, List.mem_cons, List.not_mem_nil, or_false, not_or] at hholding
        obtain ⟨hlisten, hunlisten, hprepare, hdeallocate, hcopy⟩ := hholding
        rw [if_neg (not_or.mpr ⟨hlisten, hunlisten⟩), if_neg hprepare, if_neg hdeallocate, if_neg hcopy]
        split_ifs with hstart hlock
        · exact ⟨fun _ => .inl hstart, fun _ => rfl⟩
        · exact ⟨fun _ => .inr hlock, fun _ => rfl⟩
        · exact ⟨fun hsome => (by cases hsome), fun hor => (hor.elim hstart hlock).elim⟩

/-- A statement that `SET` or `RESET` opens holds its connection by its parameter alone. -/
theorem holdsConnection_of_set {s k : Text} (hk : k = "SET".toList ∨ k = "RESET".toList) (h : (opening s).head? = some k) :
    holdsConnection s = false := by
  have hfirst : (opening s).head?.getD [] = k := by rw [h, Option.getD_some]
  have hin : k ∉ holdingWords := by obtain rfl | rfl := hk <;> decide
  have hdecided : k ∈ decidedByFirst := by obtain rfl | rfl := hk <;> decide
  have hcreate : k ≠ "CREATE".toList := by obtain rfl | rfl := hk <;> decide
  have hdeclare : k ≠ "DECLARE".toList := by obtain rfl | rfl := hk <;> decide
  have hstart : k ≠ "START".toList := by obtain rfl | rfl := hk <;> decide
  rw [holdsConnection]
  simp only [hfirst, hin, hdecided, hcreate, hdeclare, hstart, decide_false, not_true_eq_false, Bool.false_and,
    Bool.or_false]

/-- What the native classifier finds in one statement. -/
theorem statement_kinds (s : Text) :
    (statementPinReason s).isSome = true ∨ classifySet s ≠ .none ↔ changesSession s = true ∨ holdsConnection s = true := by
  have hset : classifySet s ≠ .none ↔ changesSession s = true := by
    rw [Ne, classifySet_eq_none, Bool.not_eq_false]
  by_cases h : (opening s).head? = some "SET".toList ∨ (opening s).head? = some "RESET".toList
  · have hholds : holdsConnection s = false := by
      obtain h | h := h
      · exact holdsConnection_of_set (.inl rfl) h
      · exact holdsConnection_of_set (.inr rfl) h
    rw [hset, hholds]
    constructor
    · rintro (hpin | hchanges)
      · exact .inl (hset.mp (statementPinReason_of_set h hpin))
      · exact .inl hchanges
    · rintro (hchanges | hfalse)
      · exact .inr hchanges
      · cases hfalse
  · rw [statementPinReason_of_not_set h, hset, or_comm]

/-! ## Batches -/

/-- A parameter statement anywhere in the text gives an action, also where the batch is refused. -/
theorem actionsForSql_ne_nil (sql : Text) : actionsForSql sql ≠ [] ↔ ∃ s ∈ splitStatements sql, classifySet s ≠ .none := by
  have hfound : ((splitStatements sql).map classifySet).filter (· ≠ .none) ≠ [] ↔
      ∃ s ∈ splitStatements sql, classifySet s ≠ .none := by
    rw [Ne, List.filter_eq_nil_iff]
    simp only [List.mem_map, forall_exists_index, and_imp, forall_apply_eq_imp_iff₂, decide_eq_true_eq]
    push Not
    rfl
  rw [actionsForSql]
  split_ifs with hempty hundoes
  · exact hfound
  · rw [← hfound]
    exact ⟨fun _ => by simpa using hempty, fun _ => by simp⟩
  · exact hfound

/-- The native classifier pins on the text, or tracks a parameter from it. -/
def nativeObjects (sql : Text) : Prop := (sqlPinReason sql).isSome = true ∨ actionsForSql sql ≠ []

theorem nativeObjects_iff (sql : Text) :
    nativeObjects sql ↔ ∃ s ∈ splitStatements sql, changesSession s = true ∨ holdsConnection s = true := by
  rw [nativeObjects, sqlPinReason, List.isSome_findSome?, List.any_eq_true, actionsForSql_ne_nil]
  simp only [← statement_kinds]
  constructor
  · rintro (⟨s, hs, hpin⟩ | ⟨s, hs, hset⟩)
    · exact ⟨s, hs, .inl hpin⟩
    · exact ⟨s, hs, .inr hset⟩
  · rintro ⟨s, hs, hpin | hset⟩
    · exact .inl ⟨s, hs, hpin⟩
    · exact .inr ⟨s, hs, hset⟩

/-- The profile classifies whatever the native classifier objects to. -/
def AsStrict (sql : Text) : Prop := nativeObjects sql → (postgresqlRules.classify sql).isSome = true

/-- The profile is as strict as the native classifier for a text that does not begin with words it calls shareable, and
for one in which no statement changes the session or holds its connection, and for no other. -/
theorem strict_iff (sql : Text) :
    AsStrict sql ↔ beginsShareable sql = false ∨
      ∀ s ∈ splitStatements sql, changesSession s = false ∧ holdsConnection s = false := by
  have hprofile : (postgresqlRules.classify sql).isSome = true ↔ beginsShareable sql = false := by
    rw [← Option.ne_none_iff_isSome, Ne, classify_eq_none, Bool.not_eq_true]
  have hnative : (∀ s ∈ splitStatements sql, changesSession s = false ∧ holdsConnection s = false) ↔ ¬ nativeObjects sql := by
    rw [nativeObjects_iff]
    push Not
    simp only [ne_eq, Bool.not_eq_true]
  rw [AsStrict, hprofile, hnative, imp_iff_not_or, or_comm]

/-- A lock of the session is taken by a `SELECT`. -/
theorem not_strict : ¬ AsStrict "select pg_advisory_lock(1)".toList := by
  intro h
  have hpin : (sqlPinReason "select pg_advisory_lock(1)".toList).isSome = true := by decide +kernel
  have hnone : postgresqlRules.classify "select pg_advisory_lock(1)".toList = none := by decide +kernel
  have hsome := h (.inl hpin)
  rw [hnone] at hsome
  cases hsome

end Havuz.Jdbc
