import Mathlib
import Havuz.Postgres.Statement
import Havuz.Sql.Cuts

/-!
# What stands in front of a statement

`strip_leading_noise` one blank or comment at a time. It takes block comments not to nest, and a line comment to go on
to `\n`; where that is right, what it leaves of a statement starts with the first token that is not a separator.
-/

namespace Havuz.Sql

open Postgres (Token Reads lex raws core)

/-! ## One turn of the loop -/

theorem afterFirst_length {needle t rest : Text} (h : Text.afterFirst needle t = some rest) : rest.length ≤ t.length := by
  induction t with
  | nil =>
      rw [Text.afterFirst] at h
      split at h
      · cases h
        exact Nat.le_refl 0
      · cases h
  | cons c t ih =>
      rw [Text.afterFirst] at h
      split at h
      · cases h
        rw [List.length_drop]
        omega
      · have := ih h
        rw [List.length_cons]
        omega

theorem trimStart_length (t : Text) : (Text.trimStart t).length ≤ t.length := (List.dropWhile_suffix _).length_le

theorem stripPrefix_append (pre t : Text) : Text.stripPrefix pre (pre ++ t) = some t := by
  rw [Text.stripPrefix, if_pos (List.isPrefixOf_iff_prefix.mpr (List.prefix_append pre t)), List.drop_left]

theorem stripPrefix_none {pre t : Text} (h : ¬ pre <+: t) : Text.stripPrefix pre t = none :=
  if_neg fun hpre => h (List.isPrefixOf_iff_prefix.mp hpre)

/-- What a turn of the loop goes on with, behind a comment at the start of the text. -/
def behindComment (t : Text) : Option Text :=
  match Text.stripPrefix ['-', '-'] t with
  | some after => some (Text.trimStart ((Text.afterFirst ['\n'] after).getD []))
  | none =>
      match Text.stripPrefix ['/', '*'] t with
      | some after => some (((Text.afterFirst ['*', '/'] after).map Text.trimStart).getD [])
      | none => none

theorem stripPrefix_length {pre t rest : Text} (h : Text.stripPrefix pre t = some rest) : rest.length = t.length - pre.length := by
  rw [Text.stripPrefix] at h
  split at h
  · cases h
    exact List.length_drop
  · cases h

theorem stripPrefix_pos {pre t rest : Text} (hpre : pre ≠ []) (h : Text.stripPrefix pre t = some rest) : t ≠ [] := by
  rintro rfl
  match pre with
  | [] => exact hpre rfl
  | c :: pre => cases h

theorem behindComment_length {t rest : Text} (h : behindComment t = some rest) : rest.length < t.length := by
  unfold behindComment at h
  split at h
  case h_1 after hpre =>
    cases h
    have hpos := List.length_pos_iff.mpr (stripPrefix_pos (by simp) hpre)
    have hlength := stripPrefix_length hpre
    have htrim := trimStart_length ((Text.afterFirst ['\n'] after).getD [])
    simp only [List.length_cons, List.length_nil] at hlength
    match hfirst : Text.afterFirst ['\n'] after with
    | none =>
        rw [hfirst] at htrim
        simp only [Option.getD_none, List.length_nil] at htrim ⊢
        omega
    | some rest =>
        have hrest := afterFirst_length hfirst
        rw [hfirst] at htrim
        simp only [Option.getD_some] at htrim ⊢
        omega
  case h_2 =>
    split at h
    case h_1 after hpre =>
      cases h
      have hpos := List.length_pos_iff.mpr (stripPrefix_pos (by simp) hpre)
      have hlength := stripPrefix_length hpre
      simp only [List.length_cons, List.length_nil] at hlength
      match hfirst : Text.afterFirst ['*', '/'] after with
      | none =>
          simp only [Option.map_none, Option.getD_none, List.length_nil]
          omega
      | some rest =>
          have hrest := afterFirst_length hfirst
          have htrim := trimStart_length rest
          simp only [Option.map_some, Option.getD_some]
          omega
    case h_2 => cases h

theorem stripLoop_nil (fuel : ℕ) : stripLeadingNoiseLoop fuel [] = [] := by
  cases fuel with
  | zero => rfl
  | succ fuel => rfl

theorem stripLoop_succ (fuel : ℕ) (t : Text) :
    stripLeadingNoiseLoop (fuel + 1) t = ((behindComment t).map (stripLeadingNoiseLoop fuel)).getD t := by
  rw [stripLeadingNoiseLoop, behindComment]
  cases Text.stripPrefix ['-', '-'] t with
  | some after => rfl
  | none =>
      cases Text.stripPrefix ['/', '*'] t with
      | none => rfl
      | some after =>
          dsimp only
          cases Text.afterFirst ['*', '/'] after with
          | none => exact (stripLoop_nil fuel).symm
          | some rest => rfl

/-- More turns than characters are not needed. -/
theorem stripLoop_fuel (fuel : ℕ) (t : Text) (h : t.length ≤ fuel) :
    stripLeadingNoiseLoop fuel t = stripLeadingNoiseLoop t.length t := by
  induction fuel using Nat.strongRecOn generalizing t with
  | ind fuel ih =>
      match fuel, hlength : t.length with
      | 0, 0 => rfl
      | fuel + 1, 0 =>
          rw [List.eq_nil_of_length_eq_zero hlength, stripLoop_nil, stripLoop_nil]
      | 0, n + 1 => omega
      | fuel + 1, n + 1 =>
          rw [stripLoop_succ, stripLoop_succ]
          match hcomment : behindComment t with
          | none => rfl
          | some rest =>
              have hless := behindComment_length hcomment
              simp only [Option.map_some, Option.getD_some]
              rw [ih fuel (by omega) rest (by omega)]
              by_cases heq : n = fuel
              · rw [heq, ih fuel (by omega) rest (by omega)]
              · rw [ih n (by omega) rest (by omega)]

theorem strip_blank {c : Char} (h : isWhitespace c = true) (t : Text) : stripLeadingNoise (c :: t) = stripLeadingNoise t := by
  have hlength := trimStart_length t
  rw [stripLeadingNoise, stripLeadingNoise, Text.trimStart_of_isWhitespace h, List.length_cons,
    stripLoop_fuel _ _ (by omega), stripLoop_fuel _ _ hlength]

/-- A comment is dropped, with the blanks behind it. -/
theorem strip_comment {t rest : Text} (htrim : Text.trimStart t = t) (h : behindComment t = some (Text.trimStart rest)) :
    stripLeadingNoise t = stripLeadingNoise rest := by
  have hless := behindComment_length h
  have hlength := trimStart_length rest
  match hn : t.length with
  | 0 => omega
  | n + 1 =>
      rw [stripLeadingNoise, stripLeadingNoise, htrim, hn, stripLoop_succ, h]
      simp only [Option.map_some, Option.getD_some]
      rw [stripLoop_fuel _ _ (by omega), stripLoop_fuel _ _ hlength]

theorem strip_none {t : Text} (htrim : Text.trimStart t = t) (h : behindComment t = none) : stripLeadingNoise t = t := by
  match hn : t.length with
  | 0 =>
      rw [List.eq_nil_of_length_eq_zero hn]
      rfl
  | n + 1 =>
      rw [stripLeadingNoise, htrim, hn, stripLoop_succ, h]
      rfl

/-! ## Comments -/

theorem afterFirst_needle_length {needle t rest : Text} (h : Text.afterFirst needle t = some rest) :
    needle.length + rest.length ≤ t.length := by
  induction t with
  | nil =>
      rw [Text.afterFirst] at h
      split at h
      case isTrue hempty =>
        cases h
        rw [List.isEmpty_iff.mp hempty]
        exact Nat.le_refl 0
      case isFalse => cases h
  | cons c t ih =>
      rw [Text.afterFirst] at h
      split at h
      case isTrue hpre =>
        cases h
        have hle := (List.isPrefixOf_iff_prefix.mp hpre).length_le
        rw [List.length_drop]
        omega
      case isFalse =>
        have := ih h
        rw [List.length_cons]
        omega

/-- The first end stays the first one when text is put behind it. -/
theorem afterFirst_append {needle t rest : Text} (h : Text.afterFirst needle t = some rest) (after : Text) :
    Text.afterFirst needle (t ++ after) = some (rest ++ after) := by
  induction t with
  | nil =>
      rw [Text.afterFirst] at h
      split at h
      case isTrue hempty =>
        cases h
        rw [List.isEmpty_iff.mp hempty]
        cases after <;> rfl
      case isFalse => cases h
  | cons c t ih =>
      rw [Text.afterFirst] at h
      split at h
      case isTrue hpre =>
        cases h
        have hstarts := List.isPrefixOf_iff_prefix.mp hpre
        have hmore := List.isPrefixOf_iff_prefix.mpr (hstarts.trans (List.prefix_append (c :: t) after))
        rw [List.cons_append] at hmore ⊢
        rw [Text.afterFirst, if_pos hmore, ← List.cons_append, List.drop_append_of_le_length hstarts.length_le]
      case isFalse hpre =>
        -- the needle fits into `t`, so it cannot reach past the end of `c :: t`
        have hlength := afterFirst_needle_length h
        have hmore : ¬ needle.isPrefixOf (c :: (t ++ after)) = true := by
          intro hmore
          rw [List.isPrefixOf_iff_prefix, ← List.cons_append] at hmore
          refine hpre (List.isPrefixOf_iff_prefix.mpr ?_)
          refine List.prefix_of_prefix_length_le hmore (List.prefix_append (c :: t) after) ?_
          rw [List.length_cons]
          omega
        rw [List.cons_append, Text.afterFirst, if_neg hmore, ih h]

theorem afterFirst_char {c : Char} {body : Text} (hbody : c ∉ body) (rest : Text) :
    Text.afterFirst [c] (body ++ c :: rest) = some rest := by
  induction body with
  | nil => simp [Text.afterFirst]
  | cons d body ih =>
      rw [List.mem_cons, not_or] at hbody
      obtain ⟨hd, hbody⟩ := hbody
      rw [List.cons_append, Text.afterFirst, if_neg (by simp [hd]), ih hbody]

theorem afterFirst_char_none {c : Char} {body : Text} (hbody : c ∉ body) : Text.afterFirst [c] body = none := by
  induction body with
  | nil => rfl
  | cons d body ih =>
      rw [List.mem_cons, not_or] at hbody
      obtain ⟨hd, hbody⟩ := hbody
      rw [Text.afterFirst, if_neg (by simp [hd]), ih hbody]

theorem strip_line {body : Text} (hbody : '\n' ∉ body) (rest : Text) :
    stripLeadingNoise ('-' :: '-' :: (body ++ '\n' :: rest)) = stripLeadingNoise rest := by
  refine strip_comment rfl ?_
  have hpre : Text.stripPrefix ['-', '-'] ('-' :: '-' :: (body ++ '\n' :: rest)) = some (body ++ '\n' :: rest) :=
    stripPrefix_append ['-', '-'] _
  rw [behindComment, hpre]
  simp only [afterFirst_char hbody, Option.getD_some]

theorem strip_lastLine {body : Text} (hbody : '\n' ∉ body) : stripLeadingNoise ('-' :: '-' :: body) = [] := by
  have hrest : stripLeadingNoise [] = [] := rfl
  rw [← hrest]
  refine strip_comment rfl ?_
  have hpre : Text.stripPrefix ['-', '-'] ('-' :: '-' :: body) = some body := stripPrefix_append ['-', '-'] body
  rw [behindComment, hpre]
  simp only [afterFirst_char_none hbody, Option.getD_none]

theorem strip_block {body rest : Text} (h : Text.afterFirst ['*', '/'] body = some rest) :
    stripLeadingNoise ('/' :: '*' :: body) = stripLeadingNoise rest := by
  refine strip_comment rfl ?_
  have hline : Text.stripPrefix ['-', '-'] ('/' :: '*' :: body) = none := rfl
  have hpre : Text.stripPrefix ['/', '*'] ('/' :: '*' :: body) = some body := stripPrefix_append ['/', '*'] body
  rw [behindComment, hline, hpre]
  simp only [h, Option.map_some, Option.getD_some]

theorem strip_text {c : Char} {t : Text} (hc : isWhitespace c = false) (hline : c = '-' → t.head? ≠ some '-')
    (hblock : c = '/' → t.head? ≠ some '*') : stripLeadingNoise (c :: t) = c :: t := by
  have hnot : ∀ d e : Char, (c = d → t.head? ≠ some e) → Text.stripPrefix [d, e] (c :: t) = none := by
    intro d e hde
    refine stripPrefix_none ?_
    rintro ⟨rest, hrest⟩
    obtain ⟨rfl, rfl⟩ := List.cons.inj hrest
    exact hde rfl rfl
  refine strip_none (Text.trimStart_of_not hc t) ?_
  rw [behindComment, hnot _ _ hline, hnot _ _ hblock]

/-! ## A statement -/

/-- The comment ends at the first `*/` in it. -/
def endsOnce (t : Token) : Bool :=
  t.kind ≠ .comment || t.raw.head? = some '-' || Text.afterFirst ['*', '/'] (t.raw.drop 2) = some []

theorem newline_notMem_takeWhile (t : Text) : '\n' ∉ t.takeWhile Postgres.nonNewline :=
  fun hmem => absurd (List.mem_takeWhile_imp hmem) (by decide)

/-- Behind a line comment the statement ends, or the line does. -/
theorem behind_line {t u v : Text} (h : u ++ v = t.dropWhile Postgres.nonNewline)
    (hends : endsLine (t.dropWhile Postgres.nonNewline) = true) :
    u = [] ∨ u = ['\r'] ∨ (∃ more, u = '\n' :: more) ∨ ∃ more, u = '\r' :: '\n' :: more := by
  cases u with
  | nil => exact .inl rfl
  | cons d u =>
      have hd : Postgres.nonNewline d = false := by
        have hstop := List.head?_dropWhile_not Postgres.nonNewline t
        rw [← h] at hstop
        exact hstop
      have hcases : d = '\n' ∨ d = '\r' := by
        simp only [Postgres.nonNewline, Bool.and_eq_false_iff, decide_eq_false_iff_not, not_not] at hd
        exact hd
      obtain rfl | rfl := hcases
      · exact .inr (.inr (.inl ⟨u, rfl⟩))
      · cases u with
        | nil => exact .inr (.inl rfl)
        | cons e u =>
            have he : e = '\n' := by
              rw [← h] at hends
              exact of_decide_eq_true hends
            subst he
            exact .inr (.inr (.inr ⟨u, rfl⟩))

theorem strip_lineComment {t u v : Text} (h : u ++ v = t.dropWhile Postgres.nonNewline)
    (hends : endsLine (t.dropWhile Postgres.nonNewline) = true) :
    stripLeadingNoise ('-' :: '-' :: (t.takeWhile Postgres.nonNewline ++ u)) = stripLeadingNoise u := by
  have hbody := newline_notMem_takeWhile t
  have hreturn : '\n' ∉ t.takeWhile Postgres.nonNewline ++ ['\r'] := by
    rw [List.mem_append, not_or]
    exact ⟨hbody, by decide⟩
  obtain rfl | rfl | ⟨more, rfl⟩ | ⟨more, rfl⟩ := behind_line h hends
  · rw [List.append_nil, strip_lastLine hbody]
    rfl
  · rw [strip_lastLine hreturn]
    rfl
  · rw [strip_line hbody, strip_blank rfl]
  · have hline := strip_line hreturn more
    rw [List.append_assoc, List.singleton_append] at hline
    rw [hline, strip_blank rfl, strip_blank rfl]

/-- What is not a separator does not look like a comment. -/
theorem not_comment {standard : Bool} {c : Char} {t : Text} {r : Token × Text} (h : Reads standard c t r)
    (hsep : r.1.isSeparator = false) : (c = '-' → t.head? ≠ some '-') ∧ (c = '/' → t.head? ≠ some '*') := by
  have hident : ∀ {c : Char}, Postgres.isIdentStart c = true → c ≠ '-' ∧ c ≠ '/' := by
    rintro c hc
    refine ⟨?_, ?_⟩
    all_goals
      rintro rfl
      exact absurd hc (by decide)
  have hdigit : ∀ {c : Char}, isAsciiDigit c = true → c ≠ '-' ∧ c ≠ '/' := by
    rintro c hc
    refine ⟨?_, ?_⟩
    all_goals
      rintro rfl
      exact absurd hc (by decide)
  cases h with
  | space | line | comment => cases hsep
  | symbol h => exact ⟨h.dash, h.slash⟩
  | word hc => exact ⟨fun heq => absurd heq (hident hc).1, fun heq => absurd heq (hident hc).2⟩
  | number hc => exact ⟨fun heq => absurd heq (hdigit hc).1, fun heq => absurd heq (hdigit hc).2⟩
  | escapeString hc =>
      obtain rfl | rfl := hc
      all_goals exact ⟨fun heq => absurd heq (by decide), fun heq => absurd heq (by decide)⟩
  | string | quotedWord | dollarString | param | pointNumber =>
      exact ⟨fun heq => absurd heq (by decide), fun heq => absurd heq (by decide)⟩

/-- A separator is dropped. -/
theorem strip_separator {standard : Bool} {c : Char} {t u v : Text} {r : Token × Text} (h : Reads standard c t r)
    (huv : u ++ v = r.2) (hsep : r.1.isSeparator = true) (hread : readAlike standard r.1 r.2 = true)
    (honce : endsOnce r.1 = true) : stripLeadingNoise (r.1.raw ++ u) = stripLeadingNoise u := by
  cases h with
  | space hc => exact strip_blank (Postgres.isWhitespace_of_isSpace hc) u
  | line => exact strip_lineComment huv hread
  | comment =>
      have hends : Text.afterFirst ['*', '/'] (Postgres.block 1 _).1 = some [] := of_decide_eq_true honce
      exact strip_block (afterFirst_append hends u)
  | _ => cases hsep

/-- **What is left of a statement starts with its first token that is not a separator.** -/
theorem strip_statement {standard : Bool} {t : Text} {st tail : List Token} (hlex : lex standard t = st ++ tail)
    (halike : allAlike standard (st ++ tail) = true)
    (hplain : ∀ tok ∈ st.takeWhile Token.isSeparator, endsOnce tok = true)
    (hfirst : ∀ c ∈ (raws (core st)).head?, isWhitespace c = false) : stripLeadingNoise (raws st) = raws (core st) := by
  induction t using Postgres.lex_induction standard generalizing st with
  | nil =>
      obtain ⟨rfl, -⟩ := List.append_eq_nil_iff.mp hlex.symm
      rfl
  | cons c t ih =>
      cases st with
      | nil => rfl
      | cons tok st =>
          rw [Postgres.lex_cons, List.cons_append] at hlex
          obtain ⟨rfl, hrest⟩ := List.cons.inj hlex
          have hreads := Postgres.next_reads standard c t
          have hraws : raws st ++ raws tail = (Postgres.next standard c t).2 := by
            rw [← Postgres.raws_append, ← hrest, Postgres.lex_raw]
          rw [List.cons_append, allAlike, Bool.and_eq_true, Postgres.raws_append, hraws] at halike
          by_cases hsep : (Postgres.next standard c t).1.isSeparator = true
          · have hcore : core ((Postgres.next standard c t).1 :: st) = core st := List.dropWhile_cons_of_pos hsep
            rw [List.takeWhile_cons_of_pos hsep] at hplain
            obtain ⟨honce, hplain⟩ := List.forall_mem_cons.mp hplain
            rw [hcore] at hfirst ⊢
            rw [← ih hrest halike.2 hplain hfirst, Postgres.raws_cons, strip_separator hreads hraws hsep halike.1 honce]
          · have hcore : core ((Postgres.next standard c t).1 :: st) = (Postgres.next standard c t).1 :: st :=
              List.dropWhile_cons_of_neg hsep
            obtain ⟨hdash, hslash⟩ := not_comment hreads (Bool.eq_false_iff.mpr hsep)
            have hall := hreads.append
            rw [← hraws, ← List.append_assoc, ← Postgres.raws_cons] at hall
            rw [hcore] at hfirst ⊢
            cases hraw : raws ((Postgres.next standard c t).1 :: st) with
            | nil => rfl
            | cons d u =>
                rw [hraw, List.cons_append] at hall
                obtain ⟨rfl, rfl⟩ := List.cons.inj hall
                have hhead : ∀ e : Char, (u ++ raws tail).head? ≠ some e → u.head? ≠ some e := by
                  intro e hne hu
                  obtain ⟨u', rfl⟩ := List.head?_eq_some_iff.mp hu
                  exact hne rfl
                refine strip_text (hfirst d (by rw [hraw]; rfl)) ?_ ?_
                · exact fun hc => hhead '-' (hdash hc)
                · exact fun hc => hhead '*' (hslash hc)

theorem allAlike_suffix {standard : Bool} {pre rest : List Token} (h : allAlike standard (pre ++ rest) = true) :
    allAlike standard rest = true := by
  induction pre with
  | nil => exact h
  | cons t pre ih =>
      rw [List.cons_append, allAlike, Bool.and_eq_true] at h
      exact ih h.2

theorem strip_of_mem {standard : Bool} {sql : Text} {st : List Token}
    (halike : allAlike standard (lex standard sql) = true) (hst : st ∈ Postgres.statements standard sql)
    (hplain : ∀ tok ∈ st.takeWhile Token.isSeparator, endsOnce tok = true)
    (hfirst : ∀ c ∈ (raws (core st)).head?, isWhitespace c = false) : stripLeadingNoise (raws st) = raws (core st) := by
  obtain ⟨pre, tail, heq, hlex, -⟩ := Postgres.mem_statements hst
  rw [heq] at halike
  exact strip_statement hlex (allAlike_suffix halike) hplain hfirst

/-- Nothing more is dropped from it. -/
theorem strip_core {standard : Bool} {sql : Text} {st : List Token}
    (halike : allAlike standard (lex standard sql) = true) (hst : st ∈ Postgres.statements standard sql)
    (hfirst : ∀ c ∈ (raws (core st)).head?, isWhitespace c = false) :
    stripLeadingNoise (raws (core st)) = raws (core st) := by
  obtain ⟨pre, tail, heq, hlex, -⟩ := Postgres.mem_statements hst
  have hsplit : st = st.takeWhile Token.isSeparator ++ core st := List.takeWhile_append_dropWhile.symm
  have hagain : core (core st) = core st := List.dropWhile_idempotent _ st
  have hnone : (core st).takeWhile Token.isSeparator = [] := by
    have hboth : (core st).takeWhile Token.isSeparator ++ core (core st) = core st := List.takeWhile_append_dropWhile
    rw [hagain] at hboth
    exact List.append_left_eq_self.mp hboth
  rw [heq] at halike
  rw [hsplit, List.append_assoc] at hlex halike
  have hstrip := strip_statement (Postgres.lex_suffix hlex) (allAlike_suffix (allAlike_suffix halike))
    (by rw [hnone]; exact fun tok htok => absurd htok List.not_mem_nil) (by rwa [hagain])
  rwa [hagain] at hstrip

/-! ## Leading words -/

theorem splitWhitespace_leadingWords (t : Text) (n : ℕ) :
    Text.splitWhitespace (leadingWords t n) = ((Text.splitWhitespace t).map Text.toAsciiUppercase).take n := by
  have hwords : ∀ w ∈ (Text.splitWhitespace t).take n, w ≠ [] ∧ Text.Unbroken w :=
    fun w hw => Text.splitWhitespace_unbroken t w (List.mem_of_mem_take hw)
  rw [leadingWords, Text.splitWhitespace_toAsciiUppercase, Text.splitWhitespace_join hwords, List.map_take]

end Havuz.Sql
