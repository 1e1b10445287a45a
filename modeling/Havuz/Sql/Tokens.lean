import Mathlib
import Havuz.Postgres.Along
import Havuz.Sql.ReadOnly

/-!
# Words and tokens

`take_word` and `set_value` against the tokens of PostgreSQL. An identifier the classifier reads as a word is the next
token of the statement, two with a dot between them are the next three, and what is left of the text shows what is left
of the statement (`Shows`): as long as no token there is a word that white space beyond ASCII breaks.
-/

namespace Havuz.Sql

open Postgres (Token lex core raws significant)

/-! ## The end of the text -/

/-- What is cut off the end of a statement. -/
def IsEnd (tail : Text) : Prop := ∀ c ∈ tail, isWhitespace c = true ∨ c = ';'

theorem trimEnd_end (t : Text) : ∃ tail, t = Text.trimEnd t ++ tail ∧ ∀ c ∈ tail, isWhitespace c = true := by
  refine ⟨(t.reverse.takeWhile isWhitespace).reverse, ?_, fun c hc => List.mem_takeWhile_imp (List.mem_reverse.mp hc)⟩
  have hsplit := List.takeWhile_append_dropWhile (p := isWhitespace) (l := t.reverse)
  rw [Text.trimEnd, ← List.reverse_append, hsplit, List.reverse_reverse]

theorem stripSuffixChar_end (c : Char) (t : Text) :
    Text.stripSuffixChar c t = t ∨ t = Text.stripSuffixChar c t ++ [c] := by
  unfold Text.stripSuffixChar
  split
  case h_1 d rest hreverse =>
    split
    case isTrue hd =>
      right
      rw [← hd, ← List.reverse_cons, ← hreverse, List.reverse_reverse]
    case isFalse => exact .inl rfl
  case h_2 => exact .inl rfl

/-- What ends in a solid character is kept. -/
theorem kept_of_solid {kept rest t tail : Text} (h : kept ++ rest = t ++ tail) (htail : IsEnd tail)
    (hlast : ∀ c ∈ kept.getLast?, isWhitespace c = false ∧ c ≠ ';') : ∃ more, t = kept ++ more ∧ rest = more ++ tail := by
  obtain ⟨x, ht, hrest⟩ | ⟨x, hkept, hx⟩ := List.append_eq_append_iff.mp h
  · exact ⟨x, ht, hrest⟩
  · match x with
    | [] =>
        rw [List.append_nil] at hkept
        exact ⟨[], by rw [hkept, List.append_nil], hx.symm⟩
    | c :: x =>
        exfalso
        have hmem := List.getLast_mem (List.cons_ne_nil c x)
        have hend : kept.getLast? = some ((c :: x).getLast (List.cons_ne_nil c x)) := by
          rw [hkept, List.getLast?_append_of_ne_nil _ (List.cons_ne_nil c x), List.getLast?_eq_some_getLast]
        obtain ⟨hwhite, hsemi⟩ := hlast _ hend
        have htail' := htail ((c :: x).getLast (List.cons_ne_nil c x)) (hx ▸ List.mem_append_left rest hmem)
        rcases htail' with hblank | hblank
        · rw [hblank] at hwhite
          cases hwhite
        · exact hsemi hblank

/-- The classified text is the statement without its end. -/
theorem normalizeStatement_end (s : Text) :
    ∃ tail, stripLeadingNoise s = normalizeStatement s ++ tail ∧ IsEnd tail := by
  obtain ⟨outer, houter, hblank⟩ := trimEnd_end (stripLeadingNoise s)
  obtain ⟨inner, hinner, hblank'⟩ := trimEnd_end (Text.stripSuffixChar ';' (Text.trimEnd (stripLeadingNoise s)))
  have hwhole : Text.stripSuffixChar ';' (Text.trimEnd (stripLeadingNoise s)) = normalizeStatement s ++ inner := hinner
  obtain hsame | hsemi := stripSuffixChar_end ';' (Text.trimEnd (stripLeadingNoise s))
  · refine ⟨inner ++ outer, ?_, fun c hc => ?_⟩
    · rw [← List.append_assoc, ← hwhole, hsame, ← houter]
    · rcases List.mem_append.mp hc with hc | hc
      · exact .inl (hblank' c hc)
      · exact .inl (hblank c hc)
  · refine ⟨inner ++ [';'] ++ outer, ?_, fun c hc => ?_⟩
    · rw [← List.append_assoc, ← List.append_assoc, ← hwhole, ← hsemi, ← houter]
    · rw [List.mem_append, List.mem_append, List.mem_singleton] at hc
      rcases hc with (hc | hc) | hc
      · exact .inl (hblank' c hc)
      · exact .inr hc
      · exact .inl (hblank c hc)

/-! ## Words -/

/-- A word, the white space in front of it and what ends it. -/
theorem takeWord_spec {t w rest : Text} (h : takeWord t = (w, rest)) :
    ∃ sp, t = sp ++ (w ++ rest) ∧ (∀ c ∈ sp, isWhitespace c = true) ∧ (∀ c ∈ w, endsWord c = false) ∧
      ∀ c ∈ rest.head?, endsWord c = true := by
  obtain ⟨rfl, rfl⟩ := Prod.mk.inj h
  refine ⟨t.takeWhile isWhitespace, ?_, fun c hc => List.mem_takeWhile_imp hc, fun c hc => ?_, fun c hc => ?_⟩
  · rw [List.takeWhile_append_dropWhile]
    exact List.takeWhile_append_dropWhile.symm
  · simpa using List.mem_takeWhile_imp hc
  · have hstop := List.head?_dropWhile_not (! endsWord ·) (Text.trimStart t)
    rw [hc] at hstop
    simpa using hstop

/-- A word in front of whatever ends it, or goes on with it. -/
theorem takeWord_append {sp w : Text} (hsp : ∀ c ∈ sp, isWhitespace c = true) (hne : w ≠ [])
    (hw : ∀ c ∈ w, endsWord c = false) (rest : Text) :
    takeWord (sp ++ (w ++ rest)) = (w ++ rest.takeWhile (! endsWord ·), rest.dropWhile (! endsWord ·)) := by
  have htrim : Text.trimStart (sp ++ (w ++ rest)) = w ++ rest := by
    rw [Text.trimStart, List.dropWhile_append_of_pos hsp]
    cases w with
    | nil => exact absurd rfl hne
    | cons c w =>
        have hc := hw c List.mem_cons_self
        simp only [endsWord, Bool.or_eq_false_iff] at hc
        exact Text.trimStart_of_not hc.1.1 _
  have hall : ∀ c ∈ w, (! endsWord c) = true := fun c hc => by rw [hw c hc]; rfl
  rw [takeWord, htrim, List.takeWhile_append_of_pos hall, List.dropWhile_append_of_pos hall]

theorem takeWord_word {sp w rest : Text} (hsp : ∀ c ∈ sp, isWhitespace c = true) (hne : w ≠ [])
    (hw : ∀ c ∈ w, endsWord c = false) (hrest : ∀ c ∈ rest.head?, endsWord c = true) :
    takeWord (sp ++ (w ++ rest)) = (w, rest) := by
  have hstop : rest.takeWhile (! endsWord ·) = [] ∧ rest.dropWhile (! endsWord ·) = rest := by
    match rest with
    | [] => exact ⟨rfl, rfl⟩
    | c :: rest =>
        have hc : ¬ (! endsWord c) = true := by
          rw [hrest c rfl]
          exact Bool.false_ne_true
        exact ⟨List.takeWhile_cons_of_neg hc, List.dropWhile_cons_of_neg hc⟩
  rw [takeWord_append hsp hne hw, hstop.1, hstop.2, List.append_nil]

/-- Nothing of a word goes on here. -/
def Stops (t : Text) : Prop := ∀ c ∈ t.head?, isWhitespace c = true ∨ c = '=' ∨ c = ',' ∨ c = ';'

theorem stops_append {rest tail : Text} (hrest : ∀ c ∈ rest.head?, endsWord c = true) (htail : IsEnd tail) :
    Stops (rest ++ tail) := by
  intro c hc
  match rest with
  | [] =>
      rcases htail c (List.mem_of_mem_head? hc) with hblank | hsemi
      · exact .inl hblank
      · exact .inr (.inr (.inr hsemi))
  | d :: rest =>
      obtain rfl : d = c := Option.some.inj hc
      have hd := hrest d rfl
      simp only [endsWord, Bool.or_eq_true, beq_iff_eq] at hd
      rcases hd with (hblank | heq) | hcomma
      · exact .inl hblank
      · exact .inr (.inl heq)
      · exact .inr (.inr (.inl hcomma))

theorem Stops.quote {t : Text} (h : Stops t) : t.head? ≠ some '\'' := by
  intro hhead
  rcases h _ hhead with h | h | h | h <;> exact absurd h (by decide)

/-- Only white space that is not PostgreSQL's goes on with a word. -/
theorem Stops.unbroken {t : Text} (h : Stops t) (hwhole : Text.Unbroken (t.takeWhile Postgres.isIdentCont)) :
    ∀ c ∈ t.head?, Postgres.isIdentCont c = false := by
  intro c hc
  obtain ⟨t, rfl⟩ := List.head?_eq_some_iff.mp hc
  refine Bool.eq_false_iff.mpr fun hcont => ?_
  rw [List.takeWhile_cons_of_pos hcont] at hwhole
  rcases h c rfl with h | rfl | rfl | rfl
  · have hwhite := hwhole c List.mem_cons_self
    rw [h] at hwhite
    cases hwhite
  all_goals exact absurd hcont (by decide)

theorem takeWhile_of_stop {t : Text} (h : ∀ c ∈ t.head?, Postgres.isIdentCont c = false) :
    t.takeWhile Postgres.isIdentCont = [] ∧ t.dropWhile Postgres.isIdentCont = t := by
  match t with
  | [] => exact ⟨rfl, rfl⟩
  | c :: t =>
      have hc : ¬ Postgres.isIdentCont c = true := by
        rw [h c rfl]
        exact Bool.false_ne_true
      exact ⟨List.takeWhile_cons_of_neg hc, List.dropWhile_cons_of_neg hc⟩

/-! ## Identifiers -/

theorem endsWord_of_letter {c : Char} (h : isAsciiAlphabetic c = true) : endsWord c = false := by
  simp only [isAsciiAlphabetic, Bool.or_eq_true, Bool.and_eq_true, decide_eq_true_eq] at h
  have hnat : 65 ≤ c.toNat ∧ c.toNat ≤ 122 := by
    rcases h with ⟨hlow, hhigh⟩ | ⟨hlow, hhigh⟩
    · exact ⟨Nat.le_trans (by decide) (show 97 ≤ c.toNat from hlow), hhigh⟩
    · exact ⟨hlow, Nat.le_trans (show c.toNat ≤ 90 from hhigh) (by decide)⟩
  have hne : ∀ d : Char, d.toNat < 65 → c ≠ d := by
    rintro d hd rfl
    omega
  rw [endsWord, isWhitespace_of_letter (by omega), beq_eq_false_iff_ne.mpr (hne '=' (by decide)),
    beq_eq_false_iff_ne.mpr (hne ',' (by decide))]
  rfl

/-- What an identifier is made of. -/
theorem chars_of_isIdentifier {w : Text} (h : isIdentifier w = true) :
    ∀ c ∈ w, isAsciiAlphabetic c = true ∨ isAsciiDigit c = true ∨ c = '_' ∨ c = '$' := by
  match w with
  | [] => exact fun c hc => absurd hc List.not_mem_nil
  | d :: w =>
      rw [isIdentifier, Bool.and_eq_true, List.all_eq_true] at h
      intro c hc
      rcases List.mem_cons.mp hc with rfl | hc
      · have hfirst := h.1
        simp only [Bool.or_eq_true, beq_iff_eq] at hfirst
        rcases hfirst with hc | hc
        · exact .inl hc
        · exact .inr (.inr (.inl hc))
      · have hrest := h.2 c hc
        simp only [isAsciiAlphanumeric, Bool.or_eq_true, beq_iff_eq] at hrest
        tauto

theorem isIdentCont_of_mem {w : Text} (h : isIdentifier w = true) : ∀ c ∈ w, Postgres.isIdentCont c = true := by
  intro c hc
  rcases chars_of_isIdentifier h c hc with hc | hc | hc | hc <;>
    simp [Postgres.isIdentCont, Postgres.isTagCont, Postgres.isIdentStart, hc]

theorem endsWord_of_mem {w : Text} (h : isIdentifier w = true) : ∀ c ∈ w, endsWord c = false := by
  intro c hc
  rcases chars_of_isIdentifier h c hc with hc | hc | rfl | rfl
  · exact endsWord_of_letter hc
  · simp only [isAsciiDigit, Bool.and_eq_true, decide_eq_true_eq] at hc
    have hlow : 48 ≤ c.toNat := hc.1
    have hhigh : c.toNat ≤ 57 := hc.2
    have hne : ∀ d : Char, d.toNat < 48 ∨ 57 < d.toNat → c ≠ d := by
      rintro d hd rfl
      omega
    rw [endsWord, isWhitespace_of_letter (by omega), beq_eq_false_iff_ne.mpr (hne '=' (by decide)),
      beq_eq_false_iff_ne.mpr (hne ',' (by decide))]
    rfl
  · decide
  · decide

theorem isIdentStart_of_head {w : Text} (h : isIdentifier w = true) : ∀ c ∈ w.head?, Postgres.isIdentStart c = true := by
  match w with
  | [] => exact fun c hc => by cases hc
  | d :: w =>
      intro c hc
      obtain rfl : d = c := Option.some.inj hc
      rw [isIdentifier, Bool.and_eq_true] at h
      have hfirst := h.1
      simp only [Bool.or_eq_true, beq_iff_eq] at hfirst
      rcases hfirst with hc | hc <;> simp [Postgres.isIdentStart, hc]

theorem ne_nil_of_isIdentifier {w : Text} (h : isIdentifier w = true) : w ≠ [] := by
  rintro rfl
  cases h

/-- A keyword is an identifier. -/
theorem isIdentifier_of_upper {w k : Text} (h : Text.toAsciiUppercase w = k) (hk : Text.Letters k) :
    isIdentifier w = true := by
  have hletters : ∀ c ∈ w, isAsciiAlphabetic c = true := fun c hc =>
    Text.isAsciiAlphabetic_of_toUpper (hk.2 _ (by rw [← h]; exact List.mem_map_of_mem hc))
  match w with
  | [] => exact absurd h.symm hk.1
  | c :: w =>
      obtain ⟨hc, hw⟩ := List.forall_mem_cons.mp hletters
      rw [isIdentifier, hc, Bool.true_or, Bool.true_and, List.all_eq_true]
      intro d hd
      rw [isAsciiAlphanumeric, hw d hd]
      rfl

/-- A name the classifier is willing to write is an identifier, or two with a dot between them. -/
theorem isParameterName_cases {w : Text} (h : isParameterName w = true) :
    isIdentifier w = true ∨ ∃ a b, w = a ++ '.' :: b ∧ isIdentifier a = true ∧ isIdentifier b = true := by
  have hjoin := @List.intercalate_splitOn _ w _ _ '.'
  unfold isParameterName at h
  split at h
  case h_1 first hsplit =>
    rw [hsplit] at hjoin
    left
    rw [← hjoin]
    simpa using h
  case h_2 first second hsplit =>
    rw [hsplit] at hjoin
    rw [Bool.and_eq_true] at h
    exact .inr ⟨first, second, by rw [← hjoin]; simp [List.intercalate], h.1, h.2⟩
  case h_3 => cases h

/-! ## The first tokens -/

variable {standard : Bool}

open Postgres (blanks WholeFirst AtEnd)

/-- An identifier that is read as a word is the first token. -/
theorem front {t tail w rest : Text} (htail : IsEnd tail) (hw : takeWord t = (w, rest)) (hident : isIdentifier w = true)
    (hwhole : WholeFirst (lex standard (t ++ tail))) :
    (∃ sp, lex standard (t ++ tail) = blanks sp ++ ⟨.word, w⟩ :: lex standard (rest ++ tail)) ∧
      ∀ c ∈ (rest ++ tail).head?, Postgres.isIdentCont c = false := by
  obtain ⟨sp, rfl, hsp, -, hrest⟩ := takeWord_spec hw
  have hstops := stops_append hrest htail
  rw [List.append_assoc, List.append_assoc] at hwhole ⊢
  have hblanks := Postgres.lex_blanks hsp hwhole
  have hmore := @Postgres.lex_word_more standard w (rest ++ tail) (isIdentStart_of_head hident)
    (ne_nil_of_isIdentifier hident) (isIdentCont_of_mem hident) hstops.quote
  rw [hblanks, hmore, WholeFirst, Postgres.significant_blanks, Postgres.significant_cons rfl] at hwhole
  have hword : Text.Unbroken (w ++ (rest ++ tail).takeWhile Postgres.isIdentCont) := hwhole _ rfl rfl
  have hstop := hstops.unbroken fun c hc => hword c (List.mem_append_right w hc)
  obtain ⟨htake, hdrop⟩ := takeWhile_of_stop hstop
  rw [htake, List.append_nil, hdrop] at hmore
  exact ⟨⟨sp, by rw [hblanks, hmore]⟩, hstop⟩

/-- With a dot between two of them there are three tokens, the last of which may go on. -/
theorem front_dotted {t tail a b rest : Text} (htail : IsEnd tail) (hw : takeWord t = (a ++ '.' :: b, rest))
    (ha : isIdentifier a = true) (hb : isIdentifier b = true) (hwhole : WholeFirst (lex standard (t ++ tail))) :
    ∃ sp third after, lex standard (t ++ tail) = blanks sp ++ ⟨.word, a⟩ :: ⟨.symbol, ['.']⟩ :: third :: after ∧
      third.kind = .word ∧ (Text.Unbroken third.raw → third.raw = b ∧ after = lex standard (rest ++ tail) ∧
        ∀ c ∈ (rest ++ tail).head?, Postgres.isIdentCont c = false) := by
  obtain ⟨sp, rfl, hsp, -, hrest⟩ := takeWord_spec hw
  have hstops := stops_append hrest htail
  simp only [List.append_assoc, List.cons_append] at hwhole ⊢
  have hblanks := Postgres.lex_blanks hsp hwhole
  have hfirst : lex standard (a ++ '.' :: (b ++ (rest ++ tail))) =
      ⟨.word, a⟩ :: lex standard ('.' :: (b ++ (rest ++ tail))) := by
    refine Postgres.lex_word (isIdentStart_of_head ha) (ne_nil_of_isIdentifier ha) (isIdentCont_of_mem ha) ?_
    intro c hc
    obtain rfl : '.' = c := Option.some.inj hc
    decide
  have hdot : lex standard ('.' :: (b ++ (rest ++ tail))) = ⟨.symbol, ['.']⟩ :: lex standard (b ++ (rest ++ tail)) := by
    match b, hb with
    | c :: b, hb =>
        refine Postgres.lex_dot (Bool.eq_false_iff.mpr fun hdigit => ?_) _
        have hstart := isIdentStart_of_head hb c rfl
        simp only [isAsciiDigit, Bool.and_eq_true, decide_eq_true_eq] at hdigit
        have hlow : 48 ≤ c.toNat := hdigit.1
        have hhigh : c.toNat ≤ 57 := hdigit.2
        have hof : c = Char.ofNat c.toNat := (Char.ofNat_toNat c).symm
        have hcases : c.toNat = 48 ∨ c.toNat = 49 ∨ c.toNat = 50 ∨ c.toNat = 51 ∨ c.toNat = 52 ∨ c.toNat = 53 ∨
            c.toNat = 54 ∨ c.toNat = 55 ∨ c.toNat = 56 ∨ c.toNat = 57 := by omega
        rcases hcases with hn | hn | hn | hn | hn | hn | hn | hn | hn | hn <;> rw [hn] at hof <;> subst hof <;>
          exact absurd hstart (by decide)
  have hmore := @Postgres.lex_word_more standard b (rest ++ tail) (isIdentStart_of_head hb)
    (ne_nil_of_isIdentifier hb) (isIdentCont_of_mem hb) hstops.quote
  refine ⟨sp, _, _, by rw [hblanks, hfirst, hdot, hmore], rfl, fun hword => ?_⟩
  have hstop := hstops.unbroken fun c hc => hword c (List.mem_append_right b hc)
  obtain ⟨htake, hdrop⟩ := takeWhile_of_stop hstop
  rw [htake, hdrop]
  exact ⟨List.append_nil b, rfl, hstop⟩

/-- Words of a value that mean something to the classifier. -/
def valueWords : List Text := ["DEFAULT".toList, "TO".toList]

/-- White space cuts neither `DEFAULT` nor `TO` out of the token. -/
def Clear (t : Token) : Prop :=
  t.kind = .word → Text.Unbroken t.raw ∨ ∀ w ∈ Text.splitWhitespace t.raw, Text.toAsciiUppercase w ∉ valueWords

/-- What is left of the classified text, with the end that was cut off it, are these tokens of the statement. -/
structure Shows (standard : Bool) (t tail : Text) (body fin : List Token) : Prop where
  ended : IsEnd tail
  last : AtEnd fin
  tokens : significant (lex standard (t ++ tail)) = body ++ fin
  clear : ∀ u ∈ lex standard (t ++ tail), Clear u

/-- The next token is not a word that white space breaks. -/
def Whole (ts : List Token) : Prop := ∀ u ∈ ts.head?, u.kind = .word → Text.Unbroken u.raw

theorem body_of_cons {body fin ts : List Token} {u : Token} (hfin : AtEnd fin)
    (hu : u.isSemicolon = false) (h : body ++ fin = u :: ts) : ∃ body', body = u :: body' ∧ body' ++ fin = ts := by
  match body with
  | [] =>
      obtain rfl | ⟨semi, rfl, hsemi⟩ := hfin
      · cases h
      · cases h
        rw [hu] at hsemi
        cases hsemi
  | v :: body =>
      obtain ⟨rfl, hts⟩ := List.cons.inj h
      exact ⟨body, rfl, hts⟩

namespace Shows

variable {t tail w rest : Text} {body fin : List Token}

theorem wholeFirst (h : Shows standard t tail body fin) (hwhole : Whole body) : WholeFirst (lex standard (t ++ tail)) := by
  intro u hu hkind
  rw [h.tokens] at hu
  match body with
  | [] =>
      obtain rfl | ⟨semi, rfl, hsemi⟩ := h.last
      · cases hu
      · obtain rfl : semi = u := Option.some.inj hu
        rw [Token.isSemicolon, hkind] at hsemi
        cases hsemi
  | v :: body => exact hwhole u hu hkind

theorem mem_body (h : Shows standard t tail body fin) {u : Token} (hu : u ∈ lex standard (t ++ tail))
    (hsep : u.isSeparator = false) (hsemi : u.isSemicolon = false) : u ∈ body := by
  have hsig : u ∈ significant (lex standard (t ++ tail)) := List.mem_filter.mpr ⟨hu, by simp [hsep]⟩
  rw [h.tokens] at hsig
  refine (List.mem_append.mp hsig).resolve_right fun hfin => ?_
  obtain hnil | ⟨semi, hlast, his⟩ := h.last
  · rw [hnil] at hfin
    cases hfin
  · rw [hlast, List.mem_singleton] at hfin
    rw [hfin, his] at hsemi
    cases hsemi

/-- The word is the next token. -/
theorem word (h : Shows standard t tail body fin) (hwhole : Whole body) (hw : takeWord t = (w, rest))
    (hident : isIdentifier w = true) : ∃ body', body = ⟨.word, w⟩ :: body' ∧ Shows standard rest tail body' fin ∧
      (∃ sp, lex standard (t ++ tail) = blanks sp ++ ⟨.word, w⟩ :: lex standard (rest ++ tail)) ∧
        ∀ c ∈ (rest ++ tail).head?, Postgres.isIdentCont c = false := by
  obtain ⟨⟨sp, hlex⟩, hstop⟩ := front h.ended hw hident (h.wholeFirst hwhole)
  have htokens := h.tokens
  rw [hlex, Postgres.significant_blanks, Postgres.significant_cons rfl] at htokens
  obtain ⟨body', rfl, hbody⟩ := body_of_cons h.last rfl htokens.symm
  refine ⟨body', rfl, ⟨h.ended, h.last, hbody.symm, fun u hu => h.clear u ?_⟩, ⟨sp, hlex⟩, hstop⟩
  rw [hlex]
  exact List.mem_append_right _ (List.mem_cons_of_mem _ hu)

/-- Two words with a dot between them are the next three tokens, unless white space breaks the last one. -/
theorem dotted {a b : Text} (h : Shows standard t tail body fin) (hwhole : Whole body)
    (hw : takeWord t = (a ++ '.' :: b, rest)) (ha : isIdentifier a = true) (hb : isIdentifier b = true) :
    ∃ third body', body = ⟨.word, a⟩ :: ⟨.symbol, ['.']⟩ :: third :: body' ∧ third.kind = .word ∧
      (Text.Unbroken third.raw → third = ⟨.word, b⟩ ∧ Shows standard rest tail body' fin ∧
        (∃ sp, lex standard (t ++ tail) =
          blanks sp ++ ⟨.word, a⟩ :: ⟨.symbol, ['.']⟩ :: ⟨.word, b⟩ :: lex standard (rest ++ tail)) ∧
        ∀ c ∈ (rest ++ tail).head?, Postgres.isIdentCont c = false) := by
  obtain ⟨sp, third, after, hlex, hkind, hthird⟩ := front_dotted h.ended hw ha hb (h.wholeFirst hwhole)
  have htokens := h.tokens
  have hsep : third.isSeparator = false := by simp [Token.isSeparator, hkind]
  have hsemi : third.isSemicolon = false := by simp [Token.isSemicolon, hkind]
  rw [hlex, Postgres.significant_blanks, Postgres.significant_cons rfl, Postgres.significant_cons rfl,
    Postgres.significant_cons hsep] at htokens
  obtain ⟨body₁, rfl, hbody₁⟩ := body_of_cons h.last rfl htokens.symm
  obtain ⟨body₂, rfl, hbody₂⟩ := body_of_cons h.last (by decide) hbody₁
  obtain ⟨body₃, rfl, hbody₃⟩ := body_of_cons h.last hsemi hbody₂
  refine ⟨third, body₃, rfl, hkind, fun hword => ?_⟩
  obtain ⟨hraw, rfl, hstop⟩ := hthird hword
  obtain ⟨kind, raw⟩ := third
  obtain rfl : kind = .word := hkind
  obtain rfl : raw = b := hraw
  refine ⟨rfl, ⟨h.ended, h.last, hbody₃.symm, fun u hu => h.clear u ?_⟩, ⟨sp, hlex⟩, hstop⟩
  rw [hlex]
  refine List.mem_append_right _ ?_
  simp only [List.mem_cons]
  exact .inr (.inr (.inr hu))

end Shows

/-! ## Words that white space cuts out of others -/

/-- White space that is not PostgreSQL's goes with what stands behind it. -/
theorem lex_past {sp after : Text} (hsp : ∀ c ∈ sp, isWhitespace c = true) :
    (∃ pre, lex standard (sp ++ after) = pre ++ lex standard after) ∨
      ∃ pre sp', lex standard (sp ++ after) = pre ++ ⟨.word, sp' ++ after.takeWhile Postgres.isIdentCont⟩ ::
        lex standard (after.dropWhile Postgres.isIdentCont) ∧ ∀ c ∈ sp', isWhitespace c = true := by
  induction h : sp.length using Nat.strongRecOn generalizing sp with
  | ind n ih =>
      match sp with
      | [] => exact .inl ⟨[], rfl⟩
      | c :: sp =>
          obtain ⟨hc, hrest⟩ := List.forall_mem_cons.mp hsp
          rw [List.length_cons] at h
          rw [List.cons_append, Postgres.lex_cons]
          by_cases hspace : Postgres.isSpace c = true
          · rw [Postgres.next_space hspace]
            obtain ⟨pre, hpre⟩ | ⟨pre, sp', hpre, hsp'⟩ := ih sp.length (by omega) hrest rfl
            · exact .inl ⟨_ :: pre, by rw [hpre]; rfl⟩
            · exact .inr ⟨_ :: pre, sp', by rw [hpre]; rfl, hsp'⟩
          · have hstart := Postgres.isIdentStart_of_isWhitespace hc (Bool.eq_false_iff.mpr hspace)
            have hescape : ¬ (c = 'E' ∨ c = 'e') := by
              rintro (rfl | rfl) <;> exact absurd hc (by decide)
            rw [Postgres.next_word hstart fun h => absurd h hescape]
            by_cases hall : ∀ d ∈ sp, Postgres.isIdentCont d = true
            · right
              refine ⟨[], c :: sp, ?_, hsp⟩
              rw [List.takeWhile_append_of_pos hall, List.dropWhile_append_of_pos hall]
              rfl
            · -- the word ends at white space of PostgreSQL in front of the rest
              have hne : sp.dropWhile Postgres.isIdentCont ≠ [] := fun hnil =>
                hall (List.dropWhile_eq_nil_iff.mp hnil)
              have hshort := (List.dropWhile_suffix (l := sp) Postgres.isIdentCont).length_le
              have hblank : ∀ d ∈ sp.dropWhile Postgres.isIdentCont, isWhitespace d = true :=
                fun d hd => hrest d ((List.dropWhile_suffix _).subset hd)
              rw [List.dropWhile_append, if_neg (by simpa using hne)]
              obtain ⟨pre, hpre⟩ | ⟨pre, sp', hpre, hsp'⟩ := ih _ (by omega) hblank rfl
              · exact .inl ⟨_ :: pre, by rw [hpre]; rfl⟩
              · exact .inr ⟨_ :: pre, sp', by rw [hpre]; rfl, hsp'⟩

theorem splitWhitespace_past {sp : Text} (hsp : ∀ c ∈ sp, isWhitespace c = true) (t : Text) :
    Text.splitWhitespace (sp ++ t) = Text.splitWhitespace t := by
  induction sp with
  | nil => rfl
  | cons c sp ih =>
      obtain ⟨hc, hsp⟩ := List.forall_mem_cons.mp hsp
      rw [List.cons_append, Text.splitWhitespace_of_isWhitespace hc, ih hsp]

/-- A word of the text is a word of one of its tokens. -/
theorem mem_of_takeWord {t tail w rest : Text} (htail : IsEnd tail) (hw : takeWord t = (w, rest))
    (hident : isIdentifier w = true) :
    ∃ u ∈ lex standard (t ++ tail), u.kind = .word ∧ w ∈ Text.splitWhitespace u.raw := by
  obtain ⟨sp, rfl, hsp, hends, hrest⟩ := takeWord_spec hw
  have hstops := stops_append hrest htail
  have hunbroken : Text.Unbroken w := fun c hc => by
    have hc := hends c hc
    simp only [endsWord, Bool.or_eq_false_iff] at hc
    exact hc.1.1
  have hblank : Text.Ends ((rest ++ tail).takeWhile Postgres.isIdentCont) := by
    intro c hc
    match hwhole : rest ++ tail with
    | [] =>
        rw [hwhole] at hc
        cases hc
    | d :: more =>
        rw [hwhole] at hc
        by_cases hd : Postgres.isIdentCont d = true
        · rw [List.takeWhile_cons_of_pos hd] at hc
          obtain rfl : d = c := Option.some.inj hc
          rcases hstops d (by rw [hwhole]; rfl) with h | rfl | rfl | rfl
          · exact h
          all_goals exact absurd hd (by decide)
        · rw [List.takeWhile_cons_of_neg hd] at hc
          cases hc
  have hwords : ∀ sp' : Text, (∀ c ∈ sp', isWhitespace c = true) →
      w ∈ Text.splitWhitespace (sp' ++ (w ++ (rest ++ tail).takeWhile Postgres.isIdentCont)) := by
    intro sp' hsp'
    rw [splitWhitespace_past hsp', Text.splitWhitespace_word hunbroken (ne_nil_of_isIdentifier hident) hblank]
    exact List.mem_cons_self
  rw [List.append_assoc, List.append_assoc]
  have hcont := isIdentCont_of_mem hident
  obtain ⟨pre, hlex⟩ | ⟨pre, sp', hlex, hsp'⟩ := @lex_past standard sp (w ++ (rest ++ tail)) hsp
  · rw [hlex, Postgres.lex_word_more (isIdentStart_of_head hident) (ne_nil_of_isIdentifier hident) hcont hstops.quote]
    exact ⟨_, List.mem_append_right pre List.mem_cons_self, rfl, hwords [] (fun _ h => absurd h List.not_mem_nil)⟩
  · rw [hlex, List.takeWhile_append_of_pos hcont]
    exact ⟨_, List.mem_append_right pre List.mem_cons_self, rfl, hwords sp' hsp'⟩

theorem splitWhitespace_whole {w : Text} (hw : Text.Unbroken w) {x : Text} (hx : x ∈ Text.splitWhitespace w) : x = w := by
  by_cases hne : w = []
  · subst hne
    cases hx
  · have hsplit := Text.splitWhitespace_word hw hne (t := []) (fun c hc => by cases hc)
    rw [List.append_nil] at hsplit
    rw [hsplit] at hx
    exact List.mem_singleton.mp hx

theorem upper_of_eqIgnoreAsciiCase {a b : Text} (h : Text.eqIgnoreAsciiCase a b = true) :
    Text.toAsciiUppercase a = Text.toAsciiUppercase b := by
  have heq : Text.toAsciiLowercase a = Text.toAsciiLowercase b := by simpa [Text.eqIgnoreAsciiCase] using h
  rw [← Text.toAsciiUppercase_lowercase a, heq, Text.toAsciiUppercase_lowercase]

theorem letters_of_valueWords : ∀ k ∈ valueWords, Text.Letters k := by decide

/-- The first word of a text means something to the classifier: it is a token. -/
theorem Shows.keyword {t tail w rest : Text} {body fin : List Token} (h : Shows standard t tail body fin)
    (hw : takeWord t = (w, rest)) (hk : Text.toAsciiUppercase w ∈ valueWords) :
    ∃ u ∈ body, u.keyword = Text.toAsciiUppercase w := by
  obtain ⟨u, hu, hkind, hmem⟩ := @mem_of_takeWord standard t tail w rest h.ended hw
    (isIdentifier_of_upper rfl (letters_of_valueWords _ hk))
  obtain hwhole | hnot := h.clear u hu hkind
  · obtain rfl := splitWhitespace_whole hwhole hmem
    refine ⟨u, h.mem_body hu ?_ ?_, by rw [Token.keyword, if_pos hkind]⟩
    · simp [Token.isSeparator, hkind]
    · simp [Token.isSemicolon, hkind]
  · exact absurd hk (hnot w hmem)

/-! ## Values -/

/-- A value that is taken for `DEFAULT` starts with the word. -/
theorem default_first {v : Text} (h : Text.eqIgnoreAsciiCase (Text.trim v) "DEFAULT".toList = true) :
    Text.toAsciiUppercase (takeWord v).1 = "DEFAULT".toList := by
  have hupper : Text.toAsciiUppercase (Text.trim v) = "DEFAULT".toList := upper_of_eqIgnoreAsciiCase h
  obtain ⟨tail, hsplit, htail⟩ := trimEnd_end (Text.trimStart v)
  have hletters : ∀ c ∈ Text.trim v, (! endsWord c) = true := by
    intro c hc
    have hletter := Text.isAsciiAlphabetic_of_toUpper
      ((by decide : Text.Letters "DEFAULT".toList).2 c.toUpper (by rw [← hupper]; exact List.mem_map_of_mem hc))
    rw [endsWord_of_letter hletter]
    rfl
  have hstop : tail.takeWhile (! endsWord ·) = [] := by
    match tail with
    | [] => rfl
    | c :: tail =>
        refine List.takeWhile_cons_of_neg ?_
        rw [endsWord, htail c List.mem_cons_self]
        exact Bool.false_ne_true
  have hword : (takeWord v).1 = Text.trim v := by
    show (Text.trimStart v).takeWhile (! endsWord ·) = Text.trim v
    rw [hsplit]
    show (Text.trim v ++ tail).takeWhile (! endsWord ·) = Text.trim v
    rw [List.takeWhile_append_of_pos hletters, hstop, List.append_nil]
  rw [hword, hupper]

theorem takeWord_trimStart (t : Text) : takeWord (Text.trimStart t) = takeWord t := by
  rw [takeWord, takeWord, trimStart_trimStart]

/-- How a value is introduced. -/
theorem setValue_cases {t value : Text} (h : setValue t = some value) :
    (∃ sp v, t = sp ++ '=' :: v ∧ (∀ c ∈ sp, isWhitespace c = true) ∧ value = Text.trim v) ∨
      ∃ w v, takeWord t = (w, v) ∧ Text.toAsciiUppercase w = "TO".toList ∧ value = Text.trim v := by
  have hsplit : t = t.takeWhile isWhitespace ++ Text.trimStart t := List.takeWhile_append_dropWhile.symm
  unfold setValue at h
  dsimp only at h
  split at h
  case h_1 v heq =>
    left
    rw [heq] at hsplit
    exact ⟨_, v, hsplit, fun c hc => List.mem_takeWhile_imp hc, (Option.some.inj h).symm⟩
  case h_2 =>
    rw [takeWord_trimStart] at h
    split_ifs at h with hto
    exact .inr ⟨_, _, rfl, upper_of_eqIgnoreAsciiCase hto, (Option.some.inj h).symm⟩

namespace Shows

variable {t tail w rest value : Text} {body fin : List Token}

/-- The value stands behind the next token. -/
theorem assigns (h : Shows standard t tail body fin) (hwhole : Whole body) (hv : setValue t = some value) :
    ∃ op body' v, body = op :: body' ∧ (op.isSymbol '=' = true ∨ op.keyword = "TO".toList) ∧
      Shows standard v tail body' fin ∧ value = Text.trim v := by
  obtain ⟨sp, v, rfl, hsp, rfl⟩ | ⟨w, v, hw, hto, rfl⟩ := setValue_cases hv
  · have hfirst := h.wholeFirst hwhole
    rw [List.append_assoc] at hfirst
    have hlex := Postgres.lex_blanks hsp hfirst
    rw [List.cons_append, Postgres.lex_equals] at hlex
    have htokens := h.tokens
    rw [List.append_assoc, List.cons_append, hlex, Postgres.significant_blanks, Postgres.significant_cons rfl] at htokens
    obtain ⟨body', rfl, hbody⟩ := body_of_cons h.last (by decide) htokens.symm
    refine ⟨_, body', v, rfl, .inl (by decide), ⟨h.ended, h.last, hbody.symm, fun u hu => h.clear u ?_⟩, rfl⟩
    rw [List.append_assoc, List.cons_append, hlex]
    exact List.mem_append_right _ (List.mem_cons_of_mem _ hu)
  · obtain ⟨body', rfl, hrest, -, -⟩ := h.word hwhole hw (isIdentifier_of_upper hto (by decide))
    exact ⟨_, body', v, rfl, .inr hto, hrest, rfl⟩

/-- A value in front of which nothing is assigned. -/
theorem no_assignment (h : Shows standard t tail body fin)
    (hvalue : ∀ u ∈ body, u.isSymbol '=' = false ∧ u.keyword ≠ "TO".toList) : setValue t = none := by
  match hv : setValue t with
  | none => rfl
  | some value =>
      exfalso
      obtain ⟨sp, v, rfl, hsp, -⟩ | ⟨w, v, hw, hto, -⟩ := setValue_cases hv
      · -- the sign is a token, whatever white space stands in front of it
        have hmem : (⟨.symbol, ['=']⟩ : Token) ∈ lex standard (sp ++ '=' :: v ++ tail) := by
          rw [List.append_assoc]
          obtain ⟨pre, hlex⟩ | ⟨pre, sp', hlex, -⟩ := @lex_past standard sp ('=' :: v ++ tail) hsp
          · rw [hlex, List.cons_append, Postgres.lex_equals]
            exact List.mem_append_right pre List.mem_cons_self
          · rw [hlex, List.cons_append, List.dropWhile_cons_of_neg (by decide), Postgres.lex_equals]
            exact List.mem_append_right pre (List.mem_cons_of_mem _ List.mem_cons_self)
        exact absurd (hvalue _ (h.mem_body hmem (by decide) (by decide))).1 (by decide)
      · obtain ⟨u, hu, hkeyword⟩ := h.keyword hw (by rw [hto]; decide)
        exact (hvalue u hu).2 (hkeyword.trans hto)

end Shows

end Havuz.Sql
