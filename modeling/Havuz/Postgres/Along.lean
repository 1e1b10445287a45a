import Havuz.Postgres.Statement

/-!
# Reading along a text

What the lexer makes of blanks, of words and of the characters that stand for themselves, by the text. White space that
PostgreSQL does not know goes on with a word or starts one, so a word is read as it stands when what follows is not such
a character (`lex_word`).
-/

namespace Havuz.Postgres

variable {standard : Bool}

/-! ## Characters -/

/-- What starts a word starts nothing else. -/
theorem plain_of_isIdentStart {c : Char} (h : isIdentStart c = true) :
    isSpace c = false ∧ c ≠ '-' ∧ c ≠ '/' ∧ c ≠ '\'' ∧ c ≠ '"' := by
  have hne : ∀ d : Char, isIdentStart d = false → c ≠ d := by
    rintro d hd rfl
    rw [h] at hd
    cases hd
  refine ⟨Bool.eq_false_iff.mpr fun hspace => ?_, hne _ (by decide), hne _ (by decide), hne _ (by decide), hne _ (by decide)⟩
  simp only [isSpace, Bool.or_eq_true, beq_iff_eq] at hspace
  rcases hspace with ((((rfl | rfl) | rfl) | rfl) | rfl) | rfl <;> exact absurd h (by decide)

/-! ## Tokens -/

theorem next_space {c : Char} (h : isSpace c = true) (t : Text) : next standard c t = (⟨.space, [c]⟩, t) := by
  rw [next, if_pos h]

theorem next_word {c : Char} {t : Text} (hc : isIdentStart c = true) (ht : c = 'E' ∨ c = 'e' → t.head? ≠ some '\'') :
    next standard c t = (⟨.word, c :: t.takeWhile isIdentCont⟩, t.dropWhile isIdentCont) := by
  obtain ⟨hspace, hdash, hslash, hsingle, hdouble⟩ := plain_of_isIdentStart hc
  rw [next, hspace, if_neg Bool.false_ne_true, if_neg (fun h => hdash h.1), if_neg (fun h => hslash h.1),
    if_neg hsingle, if_neg hdouble, if_neg (fun h => ht h.1 h.2), if_pos hc]

/-- A word goes on as far as the characters allow. -/
theorem lex_word_more {w after : Text} (hhead : ∀ c ∈ w.head?, isIdentStart c = true) (hne : w ≠ [])
    (hw : ∀ c ∈ w, isIdentCont c = true) (hafter : after.head? ≠ some '\'') :
    lex standard (w ++ after) =
      ⟨.word, w ++ after.takeWhile isIdentCont⟩ :: lex standard (after.dropWhile isIdentCont) := by
  match w with
  | [] => exact absurd rfl hne
  | c :: w =>
      obtain ⟨-, hw⟩ := List.forall_mem_cons.mp hw
      have hquote : (w ++ after).head? ≠ some '\'' := by
        match w with
        | [] => exact hafter
        | d :: w =>
            intro hd
            obtain rfl : d = '\'' := Option.some.inj hd
            exact absurd (hw '\'' List.mem_cons_self) (by decide)
      rw [List.cons_append, lex_cons, next_word (hhead c rfl) fun _ => hquote, List.takeWhile_append_of_pos hw,
        List.dropWhile_append_of_pos hw]
      rfl

theorem lex_word {w after : Text} (hhead : ∀ c ∈ w.head?, isIdentStart c = true) (hne : w ≠ [])
    (hw : ∀ c ∈ w, isIdentCont c = true) (hafter : ∀ c ∈ after.head?, isIdentCont c = false ∧ c ≠ '\'') :
    lex standard (w ++ after) = ⟨.word, w⟩ :: lex standard after := by
  have hquote : after.head? ≠ some '\'' := fun h => (hafter '\'' h).2 rfl
  rw [lex_word_more hhead hne hw hquote]
  match after with
  | [] => rw [List.takeWhile_nil, List.dropWhile_nil, List.append_nil]
  | c :: after =>
      have hc : ¬ isIdentCont c = true := by
        rw [(hafter c rfl).1]
        exact Bool.false_ne_true
      rw [List.takeWhile_cons_of_neg hc, List.dropWhile_cons_of_neg hc, List.append_nil]

theorem lex_equals (t : Text) : lex standard ('=' :: t) = ⟨.symbol, ['=']⟩ :: lex standard t := by
  rw [lex_cons]
  rfl

theorem lex_comma (t : Text) : lex standard (',' :: t) = ⟨.symbol, [',']⟩ :: lex standard t := by
  rw [lex_cons]
  rfl

/-- A dot in front of a name. -/
theorem lex_dot {c : Char} (hc : isAsciiDigit c = false) (t : Text) :
    lex standard ('.' :: c :: t) = ⟨.symbol, ['.']⟩ :: lex standard (c :: t) := by
  have hnext : next standard '.' (c :: t) = (⟨.symbol, ['.']⟩, c :: t) := by
    rw [next, if_neg (by decide), if_neg fun h => absurd h.1 (by decide), if_neg fun h => absurd h.1 (by decide),
      if_neg (by decide), if_neg (by decide), if_neg fun h => absurd h.1 (by decide), if_neg (by decide),
      if_neg (by decide), if_neg (by decide), if_neg fun h => absurd h.2 (by simp [hc])]
  rw [lex_cons, hnext]

/-! ## Blanks -/

/-- A blank for each of these characters. -/
def blanks (sp : Text) : List Token := sp.map fun c => ⟨.space, [c]⟩

@[simp] theorem significant_blanks (sp : Text) (ts : List Token) : significant (blanks sp ++ ts) = significant ts := by
  rw [significant, significant, List.filter_append, blanks, List.filter_map]
  simp [Token.isSeparator, Function.comp_def]

theorem blanks_kind {sp : Text} : ∀ t ∈ blanks sp, t.kind = .space := by
  intro t ht
  obtain ⟨c, -, rfl⟩ := List.mem_map.mp ht
  rfl

theorem significant_cons {t : Token} (h : t.isSeparator = false) (ts : List Token) :
    significant (t :: ts) = t :: significant ts :=
  List.filter_cons_of_pos (by simp [h])

theorem significant_cons_of_separator {t : Token} (h : t.isSeparator = true) (ts : List Token) :
    significant (t :: ts) = significant ts :=
  List.filter_cons_of_neg (by simp [h])

/-- The first token that is not a separator is not a word with white space in it. -/
def WholeFirst (ts : List Token) : Prop := ∀ t ∈ (significant ts).head?, t.kind = .word → Text.Unbroken t.raw

/-- White space in front of such a token is PostgreSQL's. -/
theorem lex_blanks {sp after : Text} (hsp : ∀ c ∈ sp, isWhitespace c = true)
    (hwhole : WholeFirst (lex standard (sp ++ after))) : lex standard (sp ++ after) = blanks sp ++ lex standard after := by
  induction sp with
  | nil => rfl
  | cons c sp ih =>
      obtain ⟨hc, hsp⟩ := List.forall_mem_cons.mp hsp
      rw [List.cons_append, lex_cons] at hwhole ⊢
      by_cases hspace : isSpace c = true
      · rw [next_space hspace] at hwhole ⊢
        rw [WholeFirst, significant_cons_of_separator rfl] at hwhole
        rw [ih hsp hwhole]
        rfl
      · -- the character would start a word that it breaks
        exfalso
        have hstart := isIdentStart_of_isWhitespace hc (Bool.eq_false_iff.mpr hspace)
        have hescape : ¬ (c = 'E' ∨ c = 'e') := by
          rintro (rfl | rfl) <;> exact absurd hc (by decide)
        rw [next_word hstart fun h => absurd h hescape, WholeFirst, significant_cons rfl] at hwhole
        have hwhite := hwhole _ rfl rfl c List.mem_cons_self
        rw [hc] at hwhite
        cases hwhite

end Havuz.Postgres
