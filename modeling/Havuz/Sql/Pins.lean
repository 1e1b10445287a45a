import Havuz.Sql.Noise
import Havuz.Sql.Classify

/-!
# What outlives a transaction

Reference: `havuz-pg/src/classify.rs` (`statement_pin_reason`).

`outlives` is the statement of PostgreSQL's grammar that leaves something on the backend, whatever stands between its
tokens. `plainlyOutlives` is the part of it that the leading words and the substring search are made for.
-/

namespace Havuz.Sql

open Postgres (Token lex statements raws core significant spelled)

/-! ## Statements that leave something behind -/

def isTempWord (w : Text) : Bool := w = "TEMP".toList || w = "TEMPORARY".toList

/-- `CREATE [OR REPLACE] [GLOBAL | LOCAL] TEMP | TEMPORARY`. -/
def createsTemp (words : List Text) : Bool :=
  match words with
  | create :: rest =>
      let rest := if ["OR".toList, "REPLACE".toList].isPrefixOf rest then rest.drop 2 else rest
      let rest := if rest.head? = some "GLOBAL".toList ∨ rest.head? = some "LOCAL".toList then rest.drop 1 else rest
      create = "CREATE".toList && rest.head?.any isTempWord
  | [] => false

/-- `INTO [TABLE] TEMP | TEMPORARY` here. -/
def intoTemp : List Text → Bool
  | into :: rest =>
      let rest := if rest.head? = some "TABLE".toList then rest.drop 1 else rest
      into = "INTO".toList && rest.head?.any isTempWord
  | [] => false

/-- Some name in front of a parenthesis is one of these. -/
def callsAny (names : List Text) : List Token → Bool
  | t :: u :: ts => (t.name.any names.contains && u.raw = ['(']) || callsAny names (u :: ts)
  | _ => false

/-- The functions that take an advisory lock for the session. -/
def lockFunctions : List Text := ["pg_advisory_lock".toList, "pg_advisory_lock_shared".toList]

/-- They take one if it is free. -/
def tryLockFunctions : List Text := ["pg_try_advisory_lock".toList, "pg_try_advisory_lock_shared".toList]

/-- What the statement leaves on the backend outlives its transaction. -/
def outlives (st : List Token) : Bool :=
  let words := (significant st).map Token.keyword
  createsTemp words ||
    (words.head? = some "SELECT".toList && words.tails.any intoTemp) ||
    (words.head? = some "DECLARE".toList && words.tails.any ["WITH".toList, "HOLD".toList].isPrefixOf) ||
    callsAny (lockFunctions ++ tryLockFunctions) (significant st) ||
    ["LISTEN".toList, "PREPARE".toList, "DEALLOCATE".toList, "DISCARD".toList, "COPY".toList].any fun k =>
      words.head? = some k

/-! ## What the classifier is made for -/

def tempSpellings : List (List Text) :=
  ["TEMP".toList, "TEMPORARY".toList].flatMap fun temp =>
    [["CREATE".toList, temp], ["CREATE".toList, "GLOBAL".toList, temp], ["CREATE".toList, "LOCAL".toList, temp]]

/-- `WITH HOLD` here, with one blank. -/
def withHold : List Token → Bool
  | a :: b :: c :: _ => a.keyword = "WITH".toList && b.raw = [' '] && c.keyword = "HOLD".toList
  | _ => false

/-- The words that `statement_pin_reason` looks no further behind. -/
def decidedByFirst : List Text := ["SET".toList, "RESET".toList, "CREATE".toList, "DECLARE".toList]

/-- Separators in front of which nothing is misread: no block comment has another one in it. -/
def plainLead (st : List Token) : Bool := (st.takeWhile Token.isSeparator).all endsOnce

/-- A statement that outlives its transaction, its keywords in front of white space. -/
def plainlyOutlives (st : List Token) : Bool :=
  plainLead st &&
    (tempSpellings.any (spelled · (core st)) ||
      (["LISTEN".toList, "PREPARE".toList, "DEALLOCATE".toList, "COPY".toList].any fun k => spelled [k] (core st)) ||
      (spelled ["DECLARE".toList] (core st) && (core st).tails.any withHold) ||
      (callsAny lockFunctions (significant st) && (raws (core st)).head?.all (! isWhitespace ·) &&
        !decidedByFirst.contains (leadingWords (raws (core st)) 1)))

/-! ## Reasons -/

section Reasons

variable {s t : Text}

theorem pin_of_words (hs : stripLeadingNoise s = t) {ks : List Text} (hks : ks.length ≤ 4) (hne : ks ≠ [])
    (h : ks <+: (Text.splitWhitespace t).map Text.toAsciiUppercase) :
    t.isEmpty = false ∧ ∃ more, Text.splitWhitespace (leadingWords t 4) = ks ++ more := by
  refine ⟨?_, ?_⟩
  · rw [List.isEmpty_eq_false_iff]
    rintro rfl
    exact hne (List.prefix_nil.mp h)
  · obtain ⟨more, hmore⟩ := h
    refine ⟨more.take (4 - ks.length), ?_⟩
    rw [splitWhitespace_leadingWords, ← hmore, List.take_append, List.take_of_length_le hks]

theorem pin_of_first (hs : stripLeadingNoise s = t) {k : Text}
    (hk : k ∈ ["LISTEN".toList, "PREPARE".toList, "DEALLOCATE".toList, "COPY".toList])
    (h : [k] <+: (Text.splitWhitespace t).map Text.toAsciiUppercase) : (statementPinReason s).isSome = true := by
  obtain ⟨hne, more, hwords⟩ := pin_of_words hs (by simp) (by simp) h
  unfold statementPinReason
  simp only [hs, hne, hwords]
  simp only [List.mem_cons, List.not_mem_nil, or_false] at hk
  obtain rfl | rfl | rfl | rfl := hk
  all_goals rfl

theorem pin_of_temp (hs : stripLeadingNoise s = t) {ks : List Text} (hks : ks ∈ tempSpellings)
    (h : ks <+: (Text.splitWhitespace t).map Text.toAsciiUppercase) : (statementPinReason s).isSome = true := by
  have hlength : ks.length ≤ 4 ∧ ks ≠ [] := (by decide : ∀ ks ∈ tempSpellings, ks.length ≤ 4 ∧ ks ≠ []) ks hks
  obtain ⟨hne, more, hwords⟩ := pin_of_words hs hlength.1 hlength.2 h
  unfold statementPinReason
  simp only [hs, hne, hwords]
  simp only [tempSpellings, List.flatMap_cons, List.flatMap_nil, List.append_nil, List.mem_append, List.mem_cons,
    List.not_mem_nil, or_false] at hks
  obtain (rfl | rfl | rfl) | rfl | rfl | rfl := hks
  all_goals rfl

theorem pin_of_declare (hs : stripLeadingNoise s = t)
    (h : ["DECLARE".toList] <+: (Text.splitWhitespace t).map Text.toAsciiUppercase)
    (hhold : Text.contains (Text.toAsciiUppercase t) "WITH HOLD".toList = true) : (statementPinReason s).isSome = true := by
  obtain ⟨hne, more, hwords⟩ := pin_of_words hs (by simp) (by simp) h
  have hreason : statementPinReason s =
      if Text.contains (Text.toAsciiUppercase t) "WITH HOLD".toList then some .holdableCursor else none := by
    unfold statementPinReason
    simp only [hs, hne, hwords]
    rfl
  rw [hreason, hhold]
  rfl

/-- A lock is looked for in every statement whose first word decides nothing. -/
theorem pin_of_lock (hs : stripLeadingNoise s = t) (hfirst : leadingWords t 1 ∉ decidedByFirst)
    (hlock : mentionsSessionAdvisoryLock t = true) : (statementPinReason s).isSome = true := by
  have hne : t.isEmpty = false := by
    rw [List.isEmpty_eq_false_iff]
    rintro rfl
    cases hlock
  have hhead : ∀ k : Text, k ∈ decidedByFirst → (Text.splitWhitespace (leadingWords t 4)).head? ≠ some k := by
    intro k hk hsome
    refine hfirst ?_
    rw [splitWhitespace_leadingWords] at hsome
    match hwords : Text.splitWhitespace t with
    | [] => rw [hwords] at hsome; cases hsome
    | w :: ws =>
        rw [hwords] at hsome
        have hw : Text.toAsciiUppercase w = k := Option.some.inj hsome
        rw [leadingWords, hwords]
        have hjoin : Text.join [' '] ((w :: ws).take 1) = w := rfl
        rw [hjoin, hw]
        exact hk
  have hset : ¬ ((Text.splitWhitespace (leadingWords t 4)).head? = some "SET".toList ∨
      (Text.splitWhitespace (leadingWords t 4)).head? = some "RESET".toList) :=
    fun h => h.elim (hhead _ (by decide)) (hhead _ (by decide))
  have hcreate := hhead "CREATE".toList (by decide)
  have hdeclare := hhead "DECLARE".toList (by decide)
  unfold statementPinReason
  simp only [hs, hne, hlock, if_neg hset, if_neg hcreate, if_neg hdeclare]
  repeat' split
  all_goals first
    | rfl
    | contradiction

/-! ## Advisory locks -/

theorem mentionsAdvisory_append (before : Text) {t : Text} (h : mentionsAdvisory t = true) :
    mentionsAdvisory (before ++ t) = true := by
  induction before with
  | nil => exact h
  | cons c before ih => rw [List.cons_append, mentionsAdvisory, ih, Bool.or_true]

theorem mentionsAdvisory_lock (after : Text) : mentionsAdvisory ("pg_advisory_lock".toList ++ after) = true := rfl

theorem lockFunctions_prefix : ∀ f ∈ lockFunctions, "pg_advisory_lock".toList <+: f := by decide

theorem mentions_of_within {f t : Text} (hf : f ∈ lockFunctions) (h : f <:+: Text.toAsciiLowercase t) :
    mentionsSessionAdvisoryLock t = true := by
  obtain ⟨before, after, heq⟩ := h
  obtain ⟨rest, hrest⟩ := lockFunctions_prefix f hf
  rw [mentionsSessionAdvisoryLock, ← heq, ← hrest, List.append_assoc, List.append_assoc]
  exact mentionsAdvisory_append before (mentionsAdvisory_lock (rest ++ after))

end Reasons

/-! ## From the tokens to the text -/

theorem name_of_callsAny {names : List Text} {ts : List Token} (h : callsAny names ts = true) :
    ∃ tok ∈ ts, ∃ f ∈ names, tok.name = some f := by
  fun_induction callsAny names ts with
  | case1 t u ts ih =>
      rw [Bool.or_eq_true, Bool.and_eq_true] at h
      obtain ⟨hname, -⟩ | hrest := h
      · obtain ⟨f, hf, hmem⟩ := (Option.any_eq_true _ _).mp hname
        exact ⟨t, List.mem_cons_self, f, List.contains_iff_mem.mp hmem, hf⟩
      · obtain ⟨tok, htok, hf⟩ := ih hrest
        exact ⟨tok, List.mem_cons_of_mem t htok, hf⟩
  | case2 => cases h

theorem lock_infix {st : List Token} (h : callsAny lockFunctions (significant st) = true) :
    ∃ f ∈ lockFunctions, f <:+: Text.toAsciiLowercase (raws (core st)) := by
  obtain ⟨tok, htok, f, hf, hname⟩ := name_of_callsAny h
  obtain ⟨htok, hsep⟩ := List.mem_filter.mp htok
  have hplain := (by decide : ∀ f ∈ lockFunctions, '"' ∉ f ∧ Text.toAsciiLowercase f = f) f hf
  have hraw := Postgres.name_infix hname hplain.1 hplain.2
  have hcore := Postgres.raw_infix_raws (Postgres.mem_core htok (by simpa using hsep))
  exact ⟨f, hf, hraw.trans (hcore.map Char.toLower)⟩

theorem withHold_within {ts : List Token} (h : ts.tails.any withHold = true) :
    Text.contains (Text.toAsciiUppercase (raws ts)) "WITH HOLD".toList = true := by
  obtain ⟨tail, htail, hhold⟩ := List.any_eq_true.mp h
  obtain ⟨before, rfl⟩ := (List.mem_tails _ _).mp htail
  rw [Text.contains_iff_infix]
  match tail with
  | a :: b :: c :: rest =>
      simp only [withHold, Bool.and_eq_true, decide_eq_true_eq] at hhold
      obtain ⟨⟨ha, hb⟩, hc⟩ := hhold
      have hraws : raws (before ++ a :: b :: c :: rest) = raws before ++ (a.raw ++ (b.raw ++ (c.raw ++ raws rest))) := by
        rw [Postgres.raws_append, Postgres.raws_cons, Postgres.raws_cons, Postgres.raws_cons]
      rw [hraws, Text.toAsciiUppercase_append, Text.toAsciiUppercase_append, Text.toAsciiUppercase_append,
        Text.toAsciiUppercase_append, Postgres.upper_of_keyword ha (by decide), Postgres.upper_of_keyword hc (by decide), hb]
      exact ⟨_, _, by
        rw [List.append_assoc]
        rfl⟩

/-! ## Statements -/

/-- A statement that plainly outlives its transaction has a reason to pin. -/
theorem pin_of_plainlyOutlives {standard : Bool} {sql : Text} {st : List Token}
    (halike : allAlike standard (lex standard sql) = true) (hst : st ∈ statements standard sql)
    (h : plainlyOutlives st = true) : (statementPinReason (raws st)).isSome = true := by
  rw [plainlyOutlives, Bool.and_eq_true] at h
  obtain ⟨hlead, h⟩ := h
  have hplain : ∀ tok ∈ st.takeWhile Token.isSeparator, endsOnce tok = true := List.all_eq_true.mp hlead
  have hspaced : ∀ tok ∈ core st, tok.Spaced := fun tok htok =>
    Postgres.spaced_of_mem_statements hst tok ((List.dropWhile_suffix _).subset htok)
  -- what the leading words are, and what is left of the text, where the statement starts with these keywords
  have hstart : ∀ {k : Text} {ks : List Text}, (∀ w ∈ k :: ks, w ≠ [] ∧ Text.Unbroken w) → spelled (k :: ks) (core st) = true →
      stripLeadingNoise (raws st) = raws (core st) ∧
        k :: ks <+: (Text.splitWhitespace (raws (core st))).map Text.toAsciiUppercase := by
    intro k ks hks hspelled
    obtain ⟨hne, hk⟩ := hks k List.mem_cons_self
    exact ⟨strip_of_mem halike hst hplain (Postgres.head_of_spelled hne hk hspelled),
      Postgres.words_of_spelled hspaced hks hspelled⟩
  simp only [Bool.or_eq_true, Bool.and_eq_true] at h
  obtain ((htemp | hfirst) | ⟨hdeclare, hhold⟩) | ⟨⟨hlock, hhead⟩, hdecided⟩ := h
  · obtain ⟨ks, hks, hspelled⟩ := List.any_eq_true.mp htemp
    have hwords := (by decide : ∀ ks ∈ tempSpellings, ks ≠ [] ∧ ∀ w ∈ ks, w ≠ [] ∧ Text.Unbroken w) ks hks
    obtain ⟨k, more, rfl⟩ := List.exists_cons_of_ne_nil hwords.1
    obtain ⟨hstrip, hlead⟩ := hstart hwords.2 hspelled
    exact pin_of_temp hstrip hks hlead
  · obtain ⟨k, hk, hspelled⟩ := List.any_eq_true.mp hfirst
    have hword := (by decide : ∀ k ∈ ["LISTEN".toList, "PREPARE".toList, "DEALLOCATE".toList, "COPY".toList],
      k ≠ [] ∧ Text.Unbroken k) k hk
    obtain ⟨hstrip, hlead⟩ := hstart (fun w hw => List.mem_singleton.mp hw ▸ hword) hspelled
    exact pin_of_first hstrip hk hlead
  · obtain ⟨hstrip, hwords⟩ := hstart (by decide) hdeclare
    exact pin_of_declare hstrip hwords (withHold_within hhold)
  · obtain ⟨f, hf, hinfix⟩ := lock_infix hlock
    have hstrip : stripLeadingNoise (raws st) = raws (core st) := by
      refine strip_of_mem halike hst hplain fun c hc => ?_
      have hblank := (Option.all_eq_true _ _).mp hhead c hc
      simpa using hblank
    exact pin_of_lock hstrip (by simpa using hdecided) (mentions_of_within hf hinfix)

/-- **A statement that plainly outlives its transaction is noticed**, whatever else is in the text. -/
theorem outlives_noticed (standard : Bool) (sql : Text) (halike : allAlike standard (lex standard sql) = true)
    (h : (statements standard sql).any plainlyOutlives = true) : (sqlPinReason sql).isSome = true := by
  obtain ⟨st, hst, hplain⟩ := List.any_eq_true.mp h
  rw [sqlPinReason, split_alike halike, List.findSome?_isSome_iff]
  exact ⟨raws st, List.mem_map_of_mem hst, pin_of_plainlyOutlives halike hst hplain⟩

/-- A batch with comments, where the second statement takes a lock. -/
theorem outlives_noticed_batch :
    (sqlPinReason "SELECT 1; /* job */ -- hold it\n select \"pg_advisory_lock\" (7)".toList).isSome = true :=
  outlives_noticed true _ (by decide) (by decide)

/-- A lock that is only tried is held as long, and is not looked for. -/
theorem not_outlives_noticed :
    ¬ ∀ sql : Text, (statements true sql).any outlives = true → (sqlPinReason sql).isSome = true := by
  intro h
  have hsome := h "SELECT pg_try_advisory_lock(1)".toList (by decide)
  revert hsome
  decide

end Havuz.Sql
