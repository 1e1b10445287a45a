import Mathlib
import Havuz.Sql.Shown
import Havuz.Sql.Classify

/-!
# Where a statement may run

Reference: `havuz-pg/src/classify.rs` (`route_intent`, `statement_route_intent`).

The answer depends on the first word of a statement and on what its tokens show (`decide_shown`). A statement that
plainly writes is a write, and a comment is as good as a blank.
-/

namespace Havuz.Sql

open Postgres (Token Reads lex statements raws core significant)

/-! ## The decision -/

/-- The words that open a transaction. -/
def Opens (words : List Text) : Prop :=
  words.head? = some "BEGIN".toList ∨ (words.head? = some "START".toList ∧ words[1]? = some "TRANSACTION".toList)

instance (words : List Text) : Decidable (Opens words) := inferInstanceAs (Decidable (_ ∨ _))

/-- What `statement_route_intent` makes of the first word and of the text it looks through. -/
def decideShown (first scannable : Text) (sessionReadOnly : Bool) : RouteIntent :=
  let words := Text.splitWhitespace scannable
  if Opens words then
    if sessionReadOnly || Text.contains scannable "READ ONLY".toList then .read else .write
  else if first ∉ readCandidates then .write
  else if writeMarkers.any (Text.contains scannable) then .write
  else if first = "WITH".toList ∧ cteMarkers.any (Text.contains scannable) then .write
  else if first = "EXPLAIN".toList ∧ Text.contains scannable "ANALYZE".toList then .write
  else .read

/-- What is left of a statement, and what is looked through there. -/
structure Seen (statement normalized scannable : Text) : Prop where
  strip : stripLeadingNoise statement = normalized
  again : stripLeadingNoise normalized = normalized
  blank : (Text.trim normalized).isEmpty = false
  shown : Text.toAsciiUppercase (stripLiterals normalized) = scannable

theorem Seen.intent {statement normalized scannable : Text} (h : Seen statement normalized scannable) (session : Bool) :
    statementRouteIntent statement session = decideShown (leadingWords normalized 1) scannable session := by
  have hopens : opensTransaction normalized = true ↔ Opens (Text.splitWhitespace scannable) := by
    simp only [opensTransaction, h.again, h.shown, Opens, Bool.or_eq_true, Bool.and_eq_true, decide_eq_true_eq]
  have hreadOnly : startsReadOnlyTransaction normalized =
      (opensTransaction normalized && Text.contains scannable "READ ONLY".toList) := by
    rw [startsReadOnlyTransaction, h.again, h.shown]
  unfold statementRouteIntent decideShown
  simp only [h.strip, h.blank, h.shown, hreadOnly]
  by_cases ho : Opens (Text.splitWhitespace scannable)
  · rw [hopens.mpr ho, if_pos rfl, if_pos ho, Bool.true_and]
    rfl
  · have hnot : opensTransaction normalized = false := Bool.eq_false_iff.mpr fun h => ho (hopens.mp h)
    rw [hnot, if_neg ho]
    rfl

/-! ## The first token -/

/-- A token that stands for itself, in ASCII: what every statement starts with that is one. -/
def isFront (t : Token) : Bool :=
  (t.kind = .word || t.kind = .symbol || t.kind = .number || t.kind = .param) &&
    t.raw.all fun c => c.toNat < 128 && !isWhitespace c

theorem isFront_unbroken {t : Token} (h : isFront t = true) : Text.Unbroken t.raw := by
  rw [isFront, Bool.and_eq_true] at h
  intro c hc
  have hplain := List.all_eq_true.mp h.2 c hc
  rw [Bool.and_eq_true] at hplain
  simpa using hplain.2

theorem isFront_ascii {t : Token} (h : isFront t = true) : ∀ c ∈ t.raw, c.toNat < 128 := by
  rw [isFront, Bool.and_eq_true] at h
  intro c hc
  have hplain := List.all_eq_true.mp h.2 c hc
  rw [Bool.and_eq_true] at hplain
  simpa using hplain.1

theorem isFront_kind {t : Token} (h : isFront t = true) :
    t.kind = .word ∨ t.kind = .symbol ∨ t.kind = .number ∨ t.kind = .param := by
  rw [isFront, Bool.and_eq_true] at h
  simpa only [Bool.or_eq_true, decide_eq_true_eq, or_assoc] using h.1

/-- It is code, all of it. -/
theorem labels_front {t : Token} (h : isFront t = true) (ts : List Token) : labels (t :: ts) = code t.raw ++ labels ts := by
  obtain ⟨kind, raw⟩ := t
  have hkind := isFront_kind h
  simp only at hkind
  obtain rfl | rfl | rfl | rfl := hkind
  all_goals cases raw <;> rfl

theorem keepCode_code (t : Text) : (code t).flatMap keepCode = Text.asLatin1 t := by
  induction t with
  | nil => rfl
  | cons c t ih =>
      rw [code_cons, List.flatMap_cons, ih, Text.asLatin1_cons]
      rfl

theorem shown_front {t : Token} (h : isFront t = true) (ts : List Token) : shown (t :: ts) = t.raw ++ shown ts := by
  rw [shown, labels_front h, List.flatMap_append, keepCode_code, Text.asLatin1_of_ascii (isFront_ascii h)]
  rfl

/-- Behind a word comes no letter. -/
theorem behind_word {standard : Bool} {t : Token} {ts : List Token} {text : Text}
    (hlex : lex standard text = t :: ts) (hkind : t.kind = .word) :
    ∀ c ∈ (raws ts).head?, Postgres.isIdentCont c = false := by
  match text with
  | [] => cases hlex
  | c :: text =>
      rw [Postgres.lex_cons] at hlex
      obtain ⟨hfirst, hrest⟩ := List.cons.inj hlex
      have hreads := Postgres.next_reads standard c text
      have hraws : (Postgres.next standard c text).2 = raws ts := by rw [← hrest, Postgres.lex_raw]
      rw [← hraws]
      rw [← hfirst] at hkind
      generalize Postgres.next standard c text = r at hreads hkind
      cases hreads with
      | word =>
          intro d hd
          have hstop := List.head?_dropWhile_not Postgres.isIdentCont text
          rw [hd] at hstop
          exact hstop
      | _ => cases hkind

/-- What is no word does not start with a letter. -/
theorem head_front {standard : Bool} {t : Token} {ts : List Token} {text : Text} (hlex : lex standard text = t :: ts)
    (hfront : isFront t = true) (hkind : t.kind ≠ .word) : ∀ c ∈ t.raw.head?, isAsciiAlphabetic c = false := by
  match text with
  | [] => cases hlex
  | c :: text =>
      rw [Postgres.lex_cons] at hlex
      obtain ⟨hfirst, -⟩ := List.cons.inj hlex
      have hreads := Postgres.next_reads standard c text
      have hfrontKind := isFront_kind hfront
      rw [← hfirst] at hkind hfrontKind ⊢
      generalize Postgres.next standard c text = r at hreads hkind hfrontKind
      have hhead : ∀ {d : Char} {raw : Text}, isAsciiAlphabetic d = false → ∀ e ∈ (d :: raw).head?, isAsciiAlphabetic e = false := by
        rintro d raw hd e he
        cases he
        exact hd
      cases hreads with
      | word => exact absurd rfl hkind
      | symbol h =>
          refine hhead ?_
          have hident := h.ident
          simp only [Postgres.isIdentStart, Bool.or_eq_false_iff] at hident
          exact hident.1.1
      | number hc =>
          refine hhead (Bool.eq_false_iff.mpr fun hletter => ?_)
          simp only [isAsciiDigit, isAsciiAlphabetic, Bool.or_eq_true, Bool.and_eq_true, decide_eq_true_eq] at hc hletter
          have h9 : c.toNat ≤ 57 := hc.2
          obtain ⟨hlow, -⟩ | ⟨hlow, -⟩ := hletter
          · have : 97 ≤ c.toNat := hlow
            omega
          · have : 65 ≤ c.toNat := hlow
            omega
      | param => exact hhead (by decide)
      | pointNumber => exact hhead (by decide)
      | _ => simp at hfrontKind

theorem not_letter_of_not_ident {c : Char} (h : Postgres.isIdentCont c = false) : isAsciiAlphabetic c = false := by
  simp only [Postgres.isIdentCont, Postgres.isTagCont, Postgres.isIdentStart, Bool.or_eq_false_iff] at h
  exact h.1.1.1.1

theorem ascii_of_not_ident {c : Char} (h : Postgres.isIdentCont c = false) : c.toNat < 128 := by
  simp only [Postgres.isIdentCont, Postgres.isTagCont, Postgres.isIdentStart, Bool.or_eq_false_iff,
    decide_eq_false_iff_not, Nat.not_le] at h
  exact h.1.1.2

theorem tokenLabels_head {u : Token} {c : Char} {raw : Text} (h : u.raw = c :: raw) :
    ∃ l, tokenLabels u = (.code, c) :: l ∨ tokenLabels u = (.opener, c) :: l := by
  unfold tokenLabels
  rw [h]
  split
  case h_5 heq => exact ⟨_, .inl (by cases heq; rfl)⟩
  case h_6 => exact ⟨_, .inl rfl⟩
  all_goals
    rename_i heq
    exact ⟨_, .inr (by cases heq; rfl)⟩

/-- What is shown behind a word does not go on with a letter either. -/
theorem shown_head {ts : List Token} (hsolid : ∀ t ∈ ts, Solid t)
    (h : ∀ c ∈ (raws ts).head?, Postgres.isIdentCont c = false) : ∀ c ∈ (shown ts).head?, isAsciiAlphabetic c = false := by
  match ts with
  | [] => exact fun c hc => by cases hc
  | u :: ts =>
      obtain ⟨c, raw, hraw⟩ := List.exists_cons_of_ne_nil (hsolid u List.mem_cons_self).1
      have hc : Postgres.isIdentCont c = false := h c (by rw [Postgres.raws_cons, hraw]; rfl)
      have hkeep : keepCode (.code, c) = [c] := Text.asLatin1_ascii (ascii_of_not_ident hc)
      intro d hd
      rw [shown, labels] at hd
      obtain ⟨l, hl | hl⟩ := tokenLabels_head hraw
      · rw [hl, List.cons_append, List.flatMap_cons, hkeep] at hd
        cases hd
        exact not_letter_of_not_ident hc
      · rw [hl, List.cons_append, List.flatMap_cons] at hd
        cases hd
        decide

section Front

variable {standard : Bool} {sql : Text} {st : List Token} {t : Token} {ts : List Token}

theorem lex_core (hst : st ∈ statements standard sql) (hcore : core st = t :: ts) :
    ∃ tail, lex standard (raws (t :: (ts ++ tail))) = t :: (ts ++ tail) := by
  obtain ⟨pre, tail, heq, -, -⟩ := Postgres.mem_statements hst
  have hsplit : st = st.takeWhile Token.isSeparator ++ (t :: ts) := by rw [← hcore]; exact List.takeWhile_append_dropWhile.symm
  rw [hsplit, List.append_assoc, ← List.append_assoc, List.cons_append] at heq
  exact ⟨tail, Postgres.lex_suffix heq⟩

theorem solid_of_mem_core (hst : st ∈ statements standard sql) : ∀ tok ∈ core st, Solid tok := by
  obtain ⟨pre, tail, heq, -, -⟩ := Postgres.mem_statements hst
  intro tok htok
  refine solid_of_mem_lex tok (?_ : tok ∈ lex standard sql)
  rw [heq]
  exact List.mem_append_right pre (List.mem_append_left tail ((List.dropWhile_suffix _).subset htok))

/-- The first word of the statement, and of what it shows, is no other keyword than its first token. -/
theorem keyword_of_front (hst : st ∈ statements standard sql) (hcore : core st = t :: ts) (hfront : isFront t = true)
    {k rest : Text} (hk : Text.Letters k) (hrest : t.kind = .word → ∀ c ∈ rest.head?, isAsciiAlphabetic c = false)
    (h : ((Text.splitWhitespace (t.raw ++ rest)).map Text.toAsciiUppercase).head? = some k) : t.keyword = k := by
  obtain ⟨tail, hlex⟩ := lex_core hst hcore
  have hne : t.raw ≠ [] := (solid_of_mem_core hst t (by rw [hcore]; exact List.mem_cons_self)).1
  by_cases hkind : t.kind = .word
  · rw [Token.keyword, if_pos hkind]
    exact Text.keyword_of_first (isFront_unbroken hfront) hne hk (hrest hkind) h
  · exact absurd h (Text.not_keyword_of_first (isFront_unbroken hfront) hk (head_front hlex hfront hkind) hne rest)

theorem behind_front (hst : st ∈ statements standard sql) (hcore : core st = t :: ts) (hkind : t.kind = .word) :
    ∀ c ∈ (raws ts).head?, Postgres.isIdentCont c = false := by
  obtain ⟨tail, hlex⟩ := lex_core hst hcore
  intro c hc
  refine behind_word hlex hkind c ?_
  rw [Postgres.raws_append]
  exact List.mem_head?_append_of_mem_head? hc

/-- The first word, as far as it is a keyword. -/
theorem first_of_front (hst : st ∈ statements standard sql) (hcore : core st = t :: ts) (hfront : isFront t = true)
    (hfirst : Text.Letters (leadingWords (raws (core st)) 1)) : t.keyword = leadingWords (raws (core st)) 1 := by
  refine keyword_of_front hst hcore hfront hfirst (fun hkind c hc => not_letter_of_not_ident (behind_front hst hcore hkind c hc)) ?_
  rw [leadingWords, hcore, Postgres.raws_cons] at hfirst ⊢
  cases hwords : Text.splitWhitespace (t.raw ++ raws ts) with
  | nil =>
      rw [hwords] at hfirst
      exact absurd rfl hfirst.1
  | cons w ws => rfl

theorem opens_of_front (hst : st ∈ statements standard sql) (hcore : core st = t :: ts) (hfront : isFront t = true)
    (h : Opens (Text.splitWhitespace (Text.toAsciiUppercase (shown (core st))))) :
    t.keyword = "BEGIN".toList ∨ t.keyword = "START".toList := by
  have hsolid : ∀ tok ∈ ts, Solid tok := fun tok htok =>
    solid_of_mem_core hst tok (by rw [hcore]; exact List.mem_cons_of_mem t htok)
  have hkeyword : ∀ {k : Text}, Text.Letters k →
      (Text.splitWhitespace (Text.toAsciiUppercase (shown (core st)))).head? = some k → t.keyword = k := by
    intro k hk hhead
    rw [hcore, shown_front hfront, Text.splitWhitespace_toAsciiUppercase] at hhead
    exact keyword_of_front hst hcore hfront hk (fun hkind => shown_head hsolid (behind_front hst hcore hkind)) hhead
  obtain hbegin | ⟨hstart, -⟩ := h
  · exact .inl (hkeyword (by decide) hbegin)
  · exact .inr (hkeyword (by decide) hstart)

/-- What is seen of the statement. -/
theorem seen_of_front (halike : allAlike standard (lex standard sql) = true) (hst : st ∈ statements standard sql)
    (hplain : ∀ tok ∈ st.takeWhile Token.isSeparator, endsOnce tok = true) (hcore : core st = t :: ts)
    (hfront : isFront t = true) : Seen (raws st) (raws (core st)) (Text.toAsciiUppercase (shown (core st))) := by
  have hne : t.raw ≠ [] := (solid_of_mem_core hst t (by rw [hcore]; exact List.mem_cons_self)).1
  obtain ⟨c, raw, hraw⟩ := List.exists_cons_of_ne_nil hne
  have hc : isWhitespace c = false := isFront_unbroken hfront c (by rw [hraw]; exact List.mem_cons_self)
  have htext : raws (core st) = c :: (raw ++ raws ts) := by rw [hcore, Postgres.raws_cons, hraw, List.cons_append]
  have hfirst : ∀ d ∈ (raws (core st)).head?, isWhitespace d = false := by
    intro d hd
    rw [htext] at hd
    cases hd
    exact hc
  exact
    { strip := strip_of_mem halike hst hplain hfirst
      again := strip_core halike hst hfirst
      blank := by rw [htext]; exact Text.trim_not_blank hc _
      shown := by rw [strip_shown halike hst] }

end Front

/-! ## Markers -/

/-- What is shown as one blank: a blank, or a block comment. -/
def isGap (t : Token) : Bool := t = ⟨.space, [' ']⟩ || (t.kind = .comment && t.raw.head? = some '/')

/-- These keywords, with one blank or comment between two of them. -/
def inRow : List Text → List Token → Bool
  | [], _ => true
  | [k], t :: _ => t.keyword = k
  | k :: ks, t :: g :: ts => t.keyword = k && isGap g && inRow ks ts
  | _, _ => false

/-- Row locks, and `SELECT INTO`. -/
def rowMarkers : List (List Text) :=
  [["FOR".toList, "UPDATE".toList], ["FOR".toList, "NO".toList, "KEY".toList, "UPDATE".toList],
    ["FOR".toList, "SHARE".toList], ["FOR".toList, "KEY".toList, "SHARE".toList], ["SELECT".toList, "INTO".toList]]

/-- `INTO` between two gaps. -/
def intoHere : List Token → Bool
  | g :: t :: g' :: _ => isGap g && t.keyword = "INTO".toList && isGap g'
  | _ => false

/-- `nextval` or `setval` in front of its parenthesis. -/
def callsSequence : List Token → Bool
  | t :: u :: _ => (t.keyword = "NEXTVAL".toList || t.keyword = "SETVAL".toList) && u = ⟨.symbol, ['(']⟩
  | _ => false

/-- A function on advisory locks. -/
def namesAdvisory : List Token → Bool
  | t :: _ => "PG_ADVISORY".toList.isPrefixOf t.keyword
  | [] => false

/-- A write here, in whatever statement. -/
def marksWrite (ts : List Token) : Bool :=
  rowMarkers.any (inRow · ts) || intoHere ts || callsSequence ts || namesAdvisory ts

/-- A data-modifying keyword here. -/
def modifies : List Token → Bool
  | t :: g :: _ => ["INSERT".toList, "UPDATE".toList, "DELETE".toList, "MERGE".toList].contains t.keyword && isGap g
  | _ => false

theorem labels_head {t : Token} (hne : t.raw ≠ []) (hreturn : t.raw.head? ≠ some '\r') (ts : List Token) :
    endLine (labels (t :: ts)) = labels (t :: ts) := by
  obtain ⟨c, raw, hraw⟩ := List.exists_cons_of_ne_nil hne
  have hc : c ≠ '\r' := by
    rintro rfl
    exact hreturn (by rw [hraw]; rfl)
  rw [labels]
  obtain ⟨l, hl | hl⟩ := tokenLabels_head hraw
  all_goals rw [hl, List.cons_append, endLine_of_ne hc]

/-- The tokens do not start with a carriage return. -/
def Sharp : List Token → Prop
  | t :: _ => t.raw ≠ [] ∧ t.raw.head? ≠ some '\r'
  | [] => False

/-- What is found at the start of what some tokens show is found in what the statement shows. -/
theorem contains_shown {m : Text} (before : List Token) {ts : List Token} (hts : Sharp ts)
    (h : m <+: Text.toAsciiUppercase (shown ts)) :
    Text.contains (Text.toAsciiUppercase (shown (before ++ ts))) m = true := by
  match ts with
  | t :: ts =>
      rw [Text.contains_iff_infix, shown, labels_append (labels_head hts.1 hts.2 ts), List.flatMap_append,
        Text.toAsciiUppercase_append]
      exact h.isInfix.trans (List.suffix_append _ _).isInfix

theorem shown_gap {g : Token} (h : isGap g = true) (ts : List Token) : shown (g :: ts) = ' ' :: shown ts := by
  simp only [isGap, Bool.or_eq_true, Bool.and_eq_true, decide_eq_true_eq] at h
  obtain rfl | ⟨hkind, hhead⟩ := h
  · rfl
  · obtain ⟨raw, hraw⟩ := List.head?_eq_some_iff.mp hhead
    have hlabels : tokenLabels g = (.opener, '/') :: inside raw := by
      unfold tokenLabels
      rw [hkind, hraw]
    have hbehind : behind g (labels ts) = labels ts := by
      rw [behind, isLine, hkind, hraw]
      rfl
    have hinside : (inside raw).flatMap keepCode = [] := by
      rw [List.flatMap_eq_nil_iff]
      intro x hx
      obtain ⟨c, -, rfl⟩ := List.mem_map.mp hx
      rfl
    rw [shown, labels, hlabels, hbehind, List.cons_append, List.flatMap_cons, List.flatMap_append, hinside]
    rfl

theorem gap_head {g : Token} (h : isGap g = true) : g.raw ≠ [] ∧ g.raw.head? ≠ some '\r' := by
  simp only [isGap, Bool.or_eq_true, Bool.and_eq_true, decide_eq_true_eq] at h
  obtain rfl | ⟨-, hhead⟩ := h
  · exact ⟨by simp, by simp⟩
  · refine ⟨?_, by rw [hhead]; decide⟩
    intro hnil
    rw [hnil] at hhead
    cases hhead

/-- What an unquoted ASCII word can be in upper case. -/
def KeywordChars (k : Text) : Prop := k ≠ [] ∧ ∀ c ∈ k, 33 ≤ c.toNat ∧ c.toNat < 128

instance (k : Text) : Decidable (KeywordChars k) :=
  @instDecidableAnd _ _ _ (List.decidableBAll _ k)

theorem toNat_of_toUpper {c : Char} (h : c.toUpper.toNat < 128) : c.toNat < 128 := by
  by_cases hc : 'a'.val ≤ c.val ∧ c.val ≤ 'z'.val
  · have hle : c.toNat ≤ 122 := hc.2
    omega
  · rwa [Char.toUpper, dif_neg hc] at h

theorem shown_word {t : Token} (hkind : t.kind = .word) (ts : List Token) : shown (t :: ts) = Text.asLatin1 t.raw ++ shown ts := by
  have hlabels : labels (t :: ts) = code t.raw ++ labels ts := by
    obtain ⟨kind, raw⟩ := t
    subst hkind
    cases raw <;> rfl
  rw [shown, hlabels, List.flatMap_append, keepCode_code]
  rfl

theorem word_of_keyword {t : Token} {k : Text} (h : t.keyword = k) (hne : k ≠ []) : t.kind = .word := by
  unfold Token.keyword at h
  split at h
  case isTrue hkind => exact hkind
  case isFalse => exact absurd h.symm hne

/-- A keyword, or a word that starts with one, is shown as it is. -/
theorem shown_keyword {t : Token} {k more : Text} (hk : KeywordChars k) (h : t.keyword = k ++ more) (ts : List Token) :
    ∃ rest, Text.toAsciiUppercase (shown (t :: ts)) = k ++ rest ∧
      (more = [] → rest = Text.toAsciiUppercase (shown ts)) := by
  have hne : k ++ more ≠ [] := List.append_ne_nil_of_left_ne_nil hk.1 more
  have hupper := Postgres.upper_of_keyword h hne
  obtain ⟨p, q, hraw, hp, hq⟩ : ∃ p q, t.raw = p ++ q ∧ Text.toAsciiUppercase p = k ∧ Text.toAsciiUppercase q = more :=
    List.map_eq_append_iff.mp hupper
  have hascii : ∀ c ∈ p, c.toNat < 128 :=
    fun c hc => toNat_of_toUpper (hk.2 _ (hp ▸ List.mem_map_of_mem hc)).2
  refine ⟨Text.toAsciiUppercase (Text.asLatin1 q ++ shown ts), ?_, ?_⟩
  · rw [shown_word (word_of_keyword h hne), hraw, Text.asLatin1_append, Text.asLatin1_of_ascii hascii, List.append_assoc,
      Text.toAsciiUppercase_append, hp]
  · rintro rfl
    have hnil : q = [] := List.map_eq_nil_iff.mp hq
    rw [hnil]
    rfl

/-- The same of the whole keyword. -/
theorem shown_exactly {t : Token} {k : Text} (hk : KeywordChars k) (h : t.keyword = k) (ts : List Token) :
    Text.toAsciiUppercase (shown (t :: ts)) = k ++ Text.toAsciiUppercase (shown ts) := by
  have hnil : t.keyword = k ++ [] := by rw [h, List.append_nil]
  obtain ⟨rest, hshown, hrest⟩ := shown_keyword hk hnil ts
  rw [hshown, hrest rfl]

theorem keyword_head {t : Token} {k more : Text} (hk : KeywordChars k) (h : t.keyword = k ++ more) :
    t.raw ≠ [] ∧ t.raw.head? ≠ some '\r' := by
  have hne : k ++ more ≠ [] := List.append_ne_nil_of_left_ne_nil hk.1 more
  refine ⟨Postgres.raw_ne_of_keyword h hne, fun hhead => ?_⟩
  obtain ⟨raw, hraw⟩ := List.head?_eq_some_iff.mp hhead
  obtain ⟨c, k', rfl⟩ := List.exists_cons_of_ne_nil hk.1
  have hupper := Postgres.upper_of_keyword h hne
  rw [hraw] at hupper
  have hc : '\r' = c := (List.cons.inj hupper).1
  have hge := (hk.2 c List.mem_cons_self).1
  rw [← hc] at hge
  exact absurd hge (by decide)

theorem inRow_shown {ks : List Text} (hks : ∀ k ∈ ks, KeywordChars k) {ts : List Token} (h : inRow ks ts = true) :
    Text.join [' '] ks <+: Text.toAsciiUppercase (shown ts) := by
  fun_induction inRow ks ts with
  | case1 => exact List.nil_prefix
  | case2 k t ts =>
      rw [shown_exactly (hks k List.mem_cons_self) (by simpa using h)]
      exact List.prefix_append k _
  | case3 k ks t g ts hne ih =>
      simp only [Bool.and_eq_true, decide_eq_true_eq] at h
      obtain ⟨⟨hk, hg⟩, hrow⟩ := h
      obtain ⟨hkeyword, hks⟩ := List.forall_mem_cons.mp hks
      obtain ⟨k', ks', rfl⟩ := List.exists_cons_of_ne_nil (fun hnil => hne hnil : ks ≠ [])
      have hjoin : Text.join [' '] (k :: k' :: ks') = k ++ ' ' :: Text.join [' '] (k' :: ks') := List.append_assoc ..
      have hblank : Text.toAsciiUppercase (' ' :: shown ts) = ' ' :: Text.toAsciiUppercase (shown ts) := rfl
      rw [shown_exactly hkeyword hk, shown_gap hg, hjoin, hblank, List.prefix_append_right_inj]
      exact List.cons_prefix_cons.mpr ⟨rfl, ih hks hrow⟩
  | case4 => cases h

theorem inRow_sharp {k : Text} {ks : List Text} (hk : KeywordChars k) {ts : List Token} (h : inRow (k :: ks) ts = true) :
    Sharp ts := by
  have hhead : ∀ {t : Token}, t.keyword = k → t.raw ≠ [] ∧ t.raw.head? ≠ some '\r' := by
    intro t ht
    exact keyword_head hk (by rw [ht, List.append_nil])
  match ks, ts with
  | [], t :: ts => exact hhead (by simpa [inRow] using h)
  | k' :: ks, t :: g :: ts =>
      simp only [inRow, Bool.and_eq_true, decide_eq_true_eq] at h
      exact hhead h.1.1

theorem marksWrite_sharp {ts : List Token} (h : marksWrite ts = true) : Sharp ts := by
  simp only [marksWrite, Bool.or_eq_true] at h
  obtain ((hrow | hinto) | hcall) | hadvisory := h
  · obtain ⟨ks, hks, hrow⟩ := List.any_eq_true.mp hrow
    have hkeywords := (by decide : ∀ ks ∈ rowMarkers, ks ≠ [] ∧ ∀ k ∈ ks, KeywordChars k) ks hks
    obtain ⟨k, ks, rfl⟩ := List.exists_cons_of_ne_nil hkeywords.1
    exact inRow_sharp (hkeywords.2 k List.mem_cons_self) hrow
  · match ts with
    | g :: t :: g' :: ts =>
        simp only [intoHere, Bool.and_eq_true] at hinto
        exact gap_head hinto.1.1
  · match ts with
    | t :: u :: ts =>
        simp only [callsSequence, Bool.and_eq_true, Bool.or_eq_true, decide_eq_true_eq] at hcall
        obtain hname | hname := hcall.1
        · exact keyword_head (k := "NEXTVAL".toList) (by decide) (by rw [hname, List.append_nil])
        · exact keyword_head (k := "SETVAL".toList) (by decide) (by rw [hname, List.append_nil])
  · match ts with
    | t :: ts =>
        obtain ⟨more, hmore⟩ := List.isPrefixOf_iff_prefix.mp hadvisory
        exact keyword_head (by decide) hmore.symm

theorem modifies_sharp {ts : List Token} (h : modifies ts = true) : Sharp ts := by
  match ts with
  | t :: g :: ts =>
      simp only [modifies, Bool.and_eq_true, List.contains_iff_mem] at h
      have hkeyword := (by decide : ∀ k ∈ ["INSERT".toList, "UPDATE".toList, "DELETE".toList, "MERGE".toList],
        KeywordChars k) _ h.1
      exact keyword_head hkeyword (List.append_nil _).symm

/-- Every marker is found where a write is marked. -/
theorem marker_shown {ts : List Token} (h : marksWrite ts = true) :
    ∃ m ∈ writeMarkers, m <+: Text.toAsciiUppercase (shown ts) := by
  simp only [marksWrite, Bool.or_eq_true] at h
  obtain ((hrow | hinto) | hcall) | hadvisory := h
  · obtain ⟨ks, hks, hrow⟩ := List.any_eq_true.mp hrow
    have hmarkers := (by decide : ∀ ks ∈ rowMarkers, Text.join [' '] ks ∈ writeMarkers ∧ ∀ k ∈ ks, KeywordChars k) ks hks
    exact ⟨_, hmarkers.1, inRow_shown hmarkers.2 hrow⟩
  · match ts with
    | g :: t :: g' :: ts =>
        simp only [intoHere, Bool.and_eq_true, decide_eq_true_eq] at hinto
        obtain ⟨⟨hg, ht⟩, hg'⟩ := hinto
        have hblank : ∀ x : Text, Text.toAsciiUppercase (' ' :: x) = ' ' :: Text.toAsciiUppercase x := fun x => rfl
        refine ⟨" INTO ".toList, by decide, ?_⟩
        rw [shown_gap hg, hblank, shown_exactly (by decide) ht, shown_gap hg', hblank]
        exact List.prefix_append " INTO ".toList _
  · match ts with
    | t :: u :: ts =>
        simp only [callsSequence, Bool.and_eq_true, Bool.or_eq_true, decide_eq_true_eq] at hcall
        obtain ⟨hname, rfl⟩ := hcall
        have hopen : shown (⟨.symbol, ['(']⟩ :: ts) = '(' :: shown ts := rfl
        obtain hname | hname := hname
        · refine ⟨"NEXTVAL(".toList, by decide, ?_⟩
          rw [shown_exactly (by decide) hname, hopen]
          exact List.prefix_append "NEXTVAL(".toList _
        · refine ⟨"SETVAL(".toList, by decide, ?_⟩
          rw [shown_exactly (by decide) hname, hopen]
          exact List.prefix_append "SETVAL(".toList _
  · match ts with
    | t :: ts =>
        obtain ⟨more, hmore⟩ := List.isPrefixOf_iff_prefix.mp hadvisory
        obtain ⟨rest, hshown, -⟩ := shown_keyword (by decide) hmore.symm ts
        refine ⟨"PG_ADVISORY".toList, by decide, ?_⟩
        rw [hshown]
        exact List.prefix_append _ rest

theorem modifies_shown {ts : List Token} (h : modifies ts = true) :
    ∃ m ∈ cteMarkers, m <+: Text.toAsciiUppercase (shown ts) := by
  match ts with
  | t :: g :: ts =>
      simp only [modifies, Bool.and_eq_true, List.contains_iff_mem] at h
      obtain ⟨ht, hg⟩ := h
      have hmarker := (by decide : ∀ k ∈ ["INSERT".toList, "UPDATE".toList, "DELETE".toList, "MERGE".toList],
        k ++ [' '] ∈ cteMarkers ∧ KeywordChars k) _ ht
      refine ⟨_, hmarker.1, ?_⟩
      have hblank : Text.toAsciiUppercase (' ' :: shown ts) = ' ' :: Text.toAsciiUppercase (shown ts) := rfl
      rw [shown_exactly hmarker.2 rfl, shown_gap hg, hblank, List.prefix_append_right_inj]
      exact List.cons_prefix_cons.mpr ⟨rfl, List.nil_prefix⟩

/-! ## Writes -/

/-- A statement that plainly writes: its first token is none that may start a read, or a write is marked in it. A
statement that opens a transaction writes unless the session or the statement says otherwise. -/
def plainlyWrites (session : Bool) (st : List Token) : Bool :=
  (st.takeWhile Token.isSeparator).all endsOnce &&
    match core st with
    | [] => false
    | t :: ts =>
        isFront t &&
          if t.keyword = "BEGIN".toList ∨ t.keyword = "START".toList then
            !session && !Text.contains (Text.toAsciiUppercase (shown (t :: ts))) "READ ONLY".toList
          else
            !readCandidates.contains t.keyword || (t :: ts).tails.any marksWrite ||
              (t.keyword = "WITH".toList && (t :: ts).tails.any modifies) ||
              (t.keyword = "EXPLAIN".toList && (t :: ts).any fun u => u.keyword = "ANALYZE".toList)

theorem contains_of_tails {p : List Token → Bool} {ms : List Text} {ts : List Token}
    (hsharp : ∀ {tail : List Token}, p tail = true → Sharp tail)
    (hshown : ∀ {tail : List Token}, p tail = true → ∃ m ∈ ms, m <+: Text.toAsciiUppercase (shown tail))
    (h : ts.tails.any p = true) : ms.any (Text.contains (Text.toAsciiUppercase (shown ts))) = true := by
  obtain ⟨tail, htail, hp⟩ := List.any_eq_true.mp h
  obtain ⟨before, rfl⟩ := (List.mem_tails _ _).mp htail
  obtain ⟨m, hm, hpre⟩ := hshown hp
  exact List.any_eq_true.mpr ⟨m, hm, contains_shown before (hsharp hp) hpre⟩

theorem contains_analyze {ts : List Token} (h : (ts.any fun u => u.keyword = "ANALYZE".toList) = true) :
    Text.contains (Text.toAsciiUppercase (shown ts)) "ANALYZE".toList = true := by
  obtain ⟨u, hu, hkeyword⟩ := List.any_eq_true.mp h
  obtain ⟨before, after, rfl⟩ := List.append_of_mem hu
  have hkey : u.keyword = "ANALYZE".toList := of_decide_eq_true hkeyword
  have hchars : KeywordChars "ANALYZE".toList := by decide
  refine contains_shown before (keyword_head hchars (by rw [hkey, List.append_nil]) : Sharp (u :: after)) ?_
  rw [shown_exactly hchars hkey]
  exact List.prefix_append _ _

theorem readCandidates_letters : ∀ k ∈ readCandidates, Text.Letters k := by decide

/-- A statement that plainly writes is a write. -/
theorem write_of_plainlyWrites {standard session : Bool} {sql : Text} {st : List Token}
    (halike : allAlike standard (lex standard sql) = true) (hst : st ∈ statements standard sql)
    (h : plainlyWrites session st = true) :
    (Text.trim (stripLeadingNoise (raws st))).isEmpty = false ∧ statementRouteIntent (raws st) session = .write := by
  rw [plainlyWrites, Bool.and_eq_true] at h
  obtain ⟨hlead, h⟩ := h
  match hcore : core st with
  | [] =>
      rw [hcore] at h
      cases h
  | t :: ts =>
      rw [hcore] at h
      simp only [Bool.and_eq_true] at h
      obtain ⟨hfront, h⟩ := h
      have hseen := seen_of_front halike hst (List.all_eq_true.mp hlead) hcore hfront
      refine ⟨by rw [hseen.strip]; exact hseen.blank, ?_⟩
      rw [hseen.intent, decideShown]
      have hfirst : leadingWords (raws (core st)) 1 ∈ readCandidates → t.keyword = leadingWords (raws (core st)) 1 :=
        fun hmem => first_of_front hst hcore hfront (readCandidates_letters _ hmem)
      split at h
      case isTrue hopen =>
        simp only [Bool.and_eq_true, Bool.not_eq_true', ← hcore] at h
        have hnone : leadingWords (raws (core st)) 1 ∉ readCandidates := by
          intro hmem
          rw [← hfirst hmem] at hmem
          obtain hopen | hopen := hopen
          all_goals
            rw [hopen] at hmem
            revert hmem
            decide
        by_cases ho : Opens (Text.splitWhitespace (Text.toAsciiUppercase (shown (core st))))
        · rw [if_pos ho, h.1, h.2]
          rfl
        · rw [if_neg ho, if_pos hnone]
      case isFalse hopen =>
        rw [if_neg fun ho => hopen (opens_of_front hst hcore hfront ho)]
        by_cases hmem : leadingWords (raws (core st)) 1 ∈ readCandidates
        · rw [if_neg (not_not.mpr hmem), ← hfirst hmem]
          rw [← hfirst hmem] at hmem
          simp only [Bool.or_eq_true, Bool.and_eq_true, Bool.not_eq_true', decide_eq_true_eq, ← hcore] at h
          obtain ((hnot | hmark) | ⟨hwith, hmodify⟩) | ⟨hexplain, hanalyze⟩ := h
          · rw [← List.contains_iff_mem, hnot] at hmem
            cases hmem
          · rw [if_pos (contains_of_tails marksWrite_sharp marker_shown hmark)]
          · have hfound := contains_of_tails modifies_sharp modifies_shown hmodify
            split
            · rfl
            · rw [if_pos ⟨hwith, hfound⟩]
          · have hfound := contains_analyze hanalyze
            split
            · rfl
            split
            · rfl
            · rw [if_pos ⟨hexplain, hfound⟩]
        · rw [if_pos hmem]

/-! ## Separators -/

/-- The same token, or two that are shown as one blank. -/
def SameShown (t u : Token) : Prop := t = u ∨ isGap t = true ∧ isGap u = true

/-- The first token stands in front of white space, or alone. -/
def isLeading : List Token → Bool
  | [] => true
  | t :: ts => isFront t && ts.head?.all (·.kind = .space)

/-- Two statements that differ in what stands in front of them, and in blanks and comments behind the first word. -/
structure SameStatement (st st' : List Token) : Prop where
  lead : (st.takeWhile Token.isSeparator).all endsOnce = true ∧ (st'.takeWhile Token.isSeparator).all endsOnce = true
  front : isLeading (core st) = true ∧ isLeading (core st') = true
  tokens : List.Forall₂ SameShown (core st) (core st')

theorem endLine_cons (x : Label × Char) (l : Labelled) : ∃ y, ∀ l', endLine (x :: (l ++ l')) = y :: (l ++ l') := by
  obtain ⟨label, c⟩ := x
  by_cases hc : c = '\r'
  · subst hc
    exact ⟨_, fun l' => rfl⟩
  · exact ⟨_, fun l' => endLine_of_ne hc _⟩

/-- The same is shown, also behind a line comment. -/
theorem shown_same {ts us : List Token} (h : List.Forall₂ SameShown ts us) :
    shown ts = shown us ∧ (endLine (labels ts)).flatMap keepCode = (endLine (labels us)).flatMap keepCode := by
  induction h with
  | nil => exact ⟨rfl, rfl⟩
  | @cons t u ts us htu hrest ih =>
      obtain ⟨hshown, hends⟩ := ih
      obtain rfl | ⟨ht, hu⟩ := htu
      · have hbehind : (behind t (labels ts)).flatMap keepCode = (behind t (labels us)).flatMap keepCode := by
          unfold behind
          split
          · exact hends
          · exact hshown
        refine ⟨by rw [shown, shown, labels, labels, List.flatMap_append, List.flatMap_append, hbehind], ?_⟩
        rw [labels, labels]
        cases hlabels : tokenLabels t with
        | nil =>
            have hplain : ∀ l, behind t l = l := by
              intro l
              refine if_neg fun hline => ?_
              simp only [isLine, Bool.and_eq_true, decide_eq_true_eq] at hline
              obtain ⟨raw, hraw⟩ := List.head?_eq_some_iff.mp hline.2
              obtain ⟨l, hl | hl⟩ := tokenLabels_head hraw
              all_goals
                rw [hl] at hlabels
                cases hlabels
            rw [hplain, hplain]
            exact hends
        | cons x l =>
            obtain ⟨y, hy⟩ := endLine_cons x l
            rw [List.cons_append, List.cons_append, hy, hy, List.flatMap_cons, List.flatMap_cons, List.flatMap_append,
              List.flatMap_append, hbehind]
      · have hgaps : shown (t :: ts) = shown (u :: us) := by rw [shown_gap ht, shown_gap hu, hshown]
        refine ⟨hgaps, ?_⟩
        rw [labels_head (gap_head ht).1 (gap_head ht).2, labels_head (gap_head hu).1 (gap_head hu).2]
        exact hgaps

section Same

variable {standard : Bool} {sql sql' : Text} {st st' : List Token}

theorem leadingWords_of_isLeading {t : Token} {ts : List Token} (hst : st ∈ statements standard sql) (hcore : core st = t :: ts)
    (h : isLeading (t :: ts) = true) : leadingWords (raws (core st)) 1 = Text.toAsciiUppercase t.raw := by
  rw [isLeading, Bool.and_eq_true] at h
  obtain ⟨hfront, hspace⟩ := h
  have hne : t.raw ≠ [] := (solid_of_mem_core hst t (by rw [hcore]; exact List.mem_cons_self)).1
  have hends : Text.Ends (raws ts) := by
    match ts with
    | [] => exact fun c hc => by cases hc
    | s :: ts =>
        have hmem : s ∈ st := (List.dropWhile_suffix _).subset (by rw [← core, hcore]; simp : s ∈ st.dropWhile Token.isSeparator)
        obtain ⟨c, hraw, hc⟩ := Postgres.spaced_of_mem_statements hst s hmem (by simpa using hspace)
        rw [Postgres.raws_cons, hraw]
        exact fun d hd => by cases hd; exact Postgres.isWhitespace_of_isSpace hc
  rw [hcore, Postgres.raws_cons, leadingWords, Text.splitWhitespace_word (isFront_unbroken hfront) hne hends]
  rfl

/-- What a statement adds to the answer: nothing if it is blank. -/
def answer (session : Bool) (s : Text) : Option RouteIntent :=
  if (Text.trim (stripLeadingNoise s)).isEmpty then none else some (statementRouteIntent s session)

theorem filterMap_answer (session : Bool) (l : List Text) :
    l.filterMap (answer session) =
      (l.filter fun s => !(Text.trim (stripLeadingNoise s)).isEmpty).map (statementRouteIntent · session) := by
  induction l with
  | nil => rfl
  | cons s l ih =>
      by_cases hblank : (Text.trim (stripLeadingNoise s)).isEmpty = true
      · have hnone : answer session s = none := if_pos hblank
        rw [List.filterMap_cons_none hnone, List.filter_cons_of_neg (by simp [hblank]), ih]
      · have hsome : answer session s = some (statementRouteIntent s session) := if_neg hblank
        rw [List.filterMap_cons_some hsome, List.filter_cons_of_pos (by simp [hblank]), ih]
        rfl

theorem routeIntent_answers (sql : Text) (session : Bool) :
    routeIntent sql session =
      if ((splitStatements sql).filterMap (answer session)).isEmpty then .write
      else if ((splitStatements sql).filterMap (answer session)).any (· = .write) then .write
      else .read := by
  rw [filterMap_answer, List.isEmpty_map, List.any_map]
  rfl

theorem answer_of_blank (halike : allAlike standard (lex standard sql) = true) (hst : st ∈ statements standard sql)
    (hlead : (st.takeWhile Token.isSeparator).all endsOnce = true) (hcore : core st = []) (session : Bool) :
    answer session (raws st) = none := by
  have hstrip : stripLeadingNoise (raws st) = raws (core st) :=
    strip_of_mem halike hst (List.all_eq_true.mp hlead) (by rw [hcore]; exact fun c hc => by cases hc)
  rw [answer, hstrip, hcore]
  rfl

theorem answer_same (halike : allAlike standard (lex standard sql) = true) (halike' : allAlike standard (lex standard sql') = true)
    (hst : st ∈ statements standard sql) (hst' : st' ∈ statements standard sql') (h : SameStatement st st') (session : Bool) :
    answer session (raws st) = answer session (raws st') := by
  obtain ⟨⟨hlead, hlead'⟩, ⟨hfront, hfront'⟩, htokens⟩ := h
  match hcore : core st, hcore' : core st' with
  | [], [] =>
      rw [answer_of_blank halike hst hlead hcore, answer_of_blank halike' hst' hlead' hcore']
  | t :: ts, u :: us =>
      rw [hcore] at hfront
      rw [hcore'] at hfront'
      have hleading := leadingWords_of_isLeading hst hcore hfront
      have hleading' := leadingWords_of_isLeading hst' hcore' hfront'
      have hshown := (shown_same htokens).1
      rw [isLeading, Bool.and_eq_true] at hfront hfront'
      have hseen := seen_of_front halike hst (List.all_eq_true.mp hlead) hcore hfront.1
      have hseen' := seen_of_front halike' hst' (List.all_eq_true.mp hlead') hcore' hfront'.1
      -- a gap is no first token, so the first one is the same
      have htu : t = u := by
        rw [hcore, hcore'] at htokens
        obtain htu | ⟨hgap, -⟩ := (List.forall₂_cons.mp htokens).1
        · exact htu
        · have hkind := isFront_kind hfront.1
          simp only [isGap, Bool.or_eq_true, Bool.and_eq_true, decide_eq_true_eq] at hgap
          obtain rfl | ⟨hcomment, -⟩ := hgap
          · simp at hkind
          · rw [hcomment] at hkind
            simp at hkind
      have hintent := hseen.intent session
      rw [hleading, htu, ← hleading', hshown, ← hseen'.intent session] at hintent
      have hblank := hseen.blank
      have hblank' := hseen'.blank
      rw [answer, answer, hseen.strip, hseen'.strip, hblank, hblank', hintent]
  | [], u :: us =>
      rw [hcore, hcore'] at htokens
      cases htokens
  | t :: ts, [] =>
      rw [hcore, hcore'] at htokens
      cases htokens

/-- Texts whose statements are the same in this sense get the same answer. -/
theorem routeIntent_same (halike : allAlike standard (lex standard sql) = true)
    (halike' : allAlike standard (lex standard sql') = true)
    (h : List.Forall₂ SameStatement (statements standard sql) (statements standard sql')) (session : Bool) :
    routeIntent sql session = routeIntent sql' session := by
  have hanswers : ∀ {sts sts' : List (List Token)}, sts ⊆ statements standard sql → sts' ⊆ statements standard sql' →
      List.Forall₂ SameStatement sts sts' →
      (sts.map raws).filterMap (answer session) = (sts'.map raws).filterMap (answer session) := by
    intro sts sts' hsub hsub' hsame
    induction hsame with
    | nil => rfl
    | cons hst hrest ih =>
        obtain ⟨hmem, hsub⟩ := List.cons_subset.mp hsub
        obtain ⟨hmem', hsub'⟩ := List.cons_subset.mp hsub'
        rw [List.map_cons, List.map_cons, List.filterMap_cons, List.filterMap_cons,
          answer_same halike halike' hmem hmem' hst session, ih hsub hsub']
  rw [routeIntent_answers, routeIntent_answers, split_alike halike, split_alike halike',
    hanswers (List.Subset.refl _) (List.Subset.refl _) h]

end Same

/-! ## Both together -/

end Havuz.Sql
