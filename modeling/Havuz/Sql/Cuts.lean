import Mathlib
import Havuz.Sql.Walk

/-!
# Where a text is cut

The walk of `split_statements` against the tokens of PostgreSQL. `readAlike` says of a token, and of the text behind
it, that the walk makes of it what it is; as long as it holds, every character has the label its token gives it.
-/

namespace Havuz.Sql

open Postgres (Token Reads lex next statements raws)

/-! ## Code -/

/-- Nothing starts with `c` in front of `after`. -/
def quietAt (c : Char) (after : Text) : Bool :=
  c ≠ '\'' && c ≠ '"' && (c ≠ '$' || (after.dropWhile isTagChar).head? ≠ some '$') &&
    (c ≠ '-' || after.head? ≠ some '-') && (c ≠ '/' || after.head? ≠ some '*')

/-- Nothing starts in a text in front of `after`. -/
def quiet (after : Text) : Text → Bool
  | [] => true
  | c :: t => quietAt c (t ++ after) && quiet after t

theorem quietAt_of_isPlain {c : Char} (h : isPlain c = true) (after : Text) : quietAt c after = true := by
  simp only [isPlain, Bool.and_eq_true, decide_eq_true_eq] at h
  obtain ⟨⟨⟨⟨hquote, hdouble⟩, hdollar⟩, hdash⟩, hslash⟩ := h
  simp [quietAt, hquote, hdouble, hdollar, hdash, hslash]

theorem quiet_of_isPlain {t : Text} (h : ∀ c ∈ t, isPlain c = true) (after : Text) : quiet after t = true := by
  induction t with
  | nil => rfl
  | cons c t ih =>
      obtain ⟨hc, ht⟩ := List.forall_mem_cons.mp h
      rw [quiet, quietAt_of_isPlain hc, ih ht]
      rfl

theorem quiet_append (after t t' : Text) : quiet after (t ++ t') = (quiet (t' ++ after) t && quiet after t') := by
  induction t with
  | nil => rfl
  | cons c t ih => rw [List.cons_append, quiet, quiet, ih, List.append_assoc, Bool.and_assoc]

theorem scanFrom_quietAt {c : Char} {t : Text} (h : quietAt c t = true) :
    scanFrom .base (c :: t) = (.code, c) :: scanFrom .base t := by
  simp only [quietAt, Bool.and_eq_true, Bool.or_eq_true, decide_eq_true_eq] at h
  obtain ⟨⟨⟨⟨hquote, hdouble⟩, hdollar⟩, hdash⟩, hslash⟩ := h
  by_cases h1 : c = '$'
  · subst h1
    exact scanFrom_dollar (hdollar.resolve_left (absurd rfl))
  by_cases h2 : c = '-'
  · subst h2
    exact scanFrom_dash (hdash.resolve_left (absurd rfl))
  by_cases h3 : c = '/'
  · subst h3
    exact scanFrom_slash (hslash.resolve_left (absurd rfl))
  exact scanFrom_plain (by simp [isPlain, hquote, hdouble, h1, h2, h3]) t

theorem scanFrom_quiet {t after : Text} (h : quiet after t = true) :
    scanFrom .base (t ++ after) = code t ++ scanFrom .base after := by
  induction t with
  | nil => rfl
  | cons c t ih =>
      rw [quiet, Bool.and_eq_true] at h
      rw [List.cons_append, scanFrom_quietAt h.1, ih h.2]
      rfl

/-! ## Tokens -/

/-- The labels of a token: a literal or a comment opens with its first character, `E'...'` with its quote. -/
def tokenLabels (t : Token) : Labelled :=
  match t.kind, t.raw with
  | .comment, c :: rest | .string, c :: rest | .quotedWord, c :: rest | .dollarString, c :: rest =>
      (.opener, c) :: inside rest
  | .escapeString, e :: q :: rest => (.code, e) :: (.opener, q) :: inside rest
  | _, raw => code raw

/-- No quote stands behind a backslash, counting the backslashes in pairs. -/
def noEscapedQuote (q : Char) : Text → Bool
  | '\\' :: d :: t => d ≠ q && noEscapedQuote q t
  | _ :: t => noEscapedQuote q t
  | [] => true

/-- Nothing in it looks like the tag of a dollar quote. -/
def noTag : Text → Bool
  | [] => true
  | c :: t => (c ≠ '$' || (t.dropWhile isTagChar).head? ≠ some '$') && noTag t

/-- The line is not ended by a carriage return alone. -/
def endsLine : Text → Bool
  | '\r' :: d :: _ => d = '\n'
  | _ => true

/-- The walk makes of the token what it is, with this text behind it. -/
def readAlike (standard : Bool) (t : Token) (after : Text) : Bool :=
  match t.kind with
  | .comment => t.raw.head? = some '/' || endsLine after
  | .word => noTag t.raw
  | .quotedWord => noEscapedQuote '"' t.raw.tail
  | .string => !standard || noEscapedQuote '\'' t.raw.tail
  | .dollarString => (t.raw.tail.dropWhile isTagChar).head? = some '$'
  | .param => ((t.raw.tail ++ after).dropWhile isTagChar).head? ≠ some '$'
  | _ => true

/-- The same for every token of a text. -/
def allAlike (standard : Bool) : List Token → Bool
  | [] => true
  | t :: ts => readAlike standard t (raws ts) && allAlike standard ts

/-! ## Literals -/

theorem literal_eq_escaped (t : Text) : literal '\'' t = Postgres.escaped t := by
  fun_induction Postgres.escaped t <;> simp_all [literal]

theorem head_quoted (q d : Char) (t : Text) : ∃ rest, (Postgres.quoted q (d :: t)).1 = d :: rest := by
  match t with
  | [] => exact ⟨[], rfl⟩
  | e :: t =>
      unfold Postgres.quoted
      split
      · split
        · exact ⟨_, rfl⟩
        · exact ⟨[], rfl⟩
      · exact ⟨_, rfl⟩

theorem noEscapedQuote_cons {q c : Char} (h : c ≠ '\\') (t : Text) : noEscapedQuote q (c :: t) = noEscapedQuote q t := by
  rw [noEscapedQuote]
  intro d t' hc
  exact absurd hc h

/-- Where no quote is escaped by a backslash, the two readings of a literal are one. -/
theorem literal_eq_quoted {q : Char} (hq : q ≠ '\\') (t : Text) (h : noEscapedQuote q (Postgres.quoted q t).1 = true) :
    literal q t = Postgres.quoted q t := by
  fun_induction literal q t with
  | case1 => rfl
  | case2 c => rfl
  | case3 d t ih =>
      have hfirst : Postgres.quoted q ('\\' :: d :: t) =
          ('\\' :: (Postgres.quoted q (d :: t)).1, (Postgres.quoted q (d :: t)).2) := by
        rw [Postgres.quoted, if_neg (Ne.symm hq)]
      rw [hfirst] at h ⊢
      obtain ⟨rest, hrest⟩ := head_quoted q d t
      simp only [hrest, noEscapedQuote, Bool.and_eq_true, decide_eq_true_eq] at h
      have hsecond : Postgres.quoted q (d :: t) = (d :: (Postgres.quoted q t).1, (Postgres.quoted q t).2) := by
        cases t with
        | nil => rfl
        | cons e t => rw [Postgres.quoted, if_neg h.1]
      rw [hsecond] at hrest ⊢
      rw [ih (by rw [List.cons.inj hrest |>.2]; exact h.2)]
  | case4 t hslash ih =>
      have hpair : Postgres.quoted q (q :: q :: t) = (q :: q :: (Postgres.quoted q t).1, (Postgres.quoted q t).2) := by
        rw [Postgres.quoted, if_pos rfl, if_pos rfl]
      rw [hpair] at h ⊢
      rw [noEscapedQuote_cons hq, noEscapedQuote_cons hq] at h
      rw [ih h]
  | case5 d t hd hslash =>
      rw [Postgres.quoted, if_pos rfl, if_neg hd]
  | case6 c d t hslash hc ih =>
      have hone : Postgres.quoted q (c :: d :: t) = (c :: (Postgres.quoted q (d :: t)).1, (Postgres.quoted q (d :: t)).2) := by
        rw [Postgres.quoted, if_neg hc]
      rw [hone] at h ⊢
      rw [noEscapedQuote_cons hslash] at h
      rw [ih h]

/-! ## Words and numbers -/

theorem isPlain_of_isAsciiDigit {c : Char} (h : isAsciiDigit c = true) : isPlain c = true := by
  refine isPlain_of_isTagChar ?_
  rw [isTagChar, isAsciiAlphanumeric, h, Bool.or_true, Bool.true_or]

theorem isPlain_of_isSpace {c : Char} (h : Postgres.isSpace c = true) : isPlain c = true := by
  simp only [Postgres.isSpace, Bool.or_eq_true, beq_iff_eq] at h
  rcases h with ((((rfl | rfl) | rfl) | rfl) | rfl) | rfl
  all_goals decide

/-- Apart from the dollar nothing starts at a character of an identifier. -/
theorem quietAt_of_isIdentCont {c : Char} (h : Postgres.isIdentCont c = true) (hc : c ≠ '$') (after : Text) :
    quietAt c after = true := by
  refine quietAt_of_isPlain ?_ after
  simp only [isPlain, Bool.and_eq_true, decide_eq_true_eq]
  refine ⟨⟨⟨⟨?_, ?_⟩, hc⟩, ?_⟩, ?_⟩
  all_goals
    rintro rfl
    exact absurd h (by decide)

theorem isIdentCont_of_isTagChar {c : Char} (h : isTagChar c = true) : Postgres.isIdentCont c = true := by
  simp only [isTagChar, isAsciiAlphanumeric, Bool.or_eq_true, beq_iff_eq] at h
  simp only [Postgres.isIdentCont, Postgres.isTagCont, Postgres.isIdentStart, Bool.or_eq_true, beq_iff_eq]
  tauto

/-- A run of tag characters that nothing of an identifier follows does not go on. -/
theorem head_dropWhile_append {t after : Text} (h : ∀ c ∈ after.head?, Postgres.isIdentCont c = false)
    (ht : (t.dropWhile isTagChar).head? ≠ some '$') : ((t ++ after).dropWhile isTagChar).head? ≠ some '$' := by
  induction t with
  | nil =>
      match after with
      | [] => exact ht
      | c :: after =>
          have hcont : Postgres.isIdentCont c = false := h c rfl
          have hstop : isTagChar c = false :=
            Bool.eq_false_iff.mpr fun htag => Bool.false_ne_true (hcont ▸ isIdentCont_of_isTagChar htag)
          rw [List.nil_append, List.dropWhile_cons_of_neg (by simp [hstop])]
          intro hc
          rw [List.head?_cons, Option.some.injEq] at hc
          rw [hc] at hcont
          exact absurd hcont (by decide)
  | cons c t ih =>
      rw [List.cons_append]
      by_cases hc : isTagChar c = true
      · rw [List.dropWhile_cons_of_pos hc] at ht ⊢
        exact ih ht
      · rw [List.dropWhile_cons_of_neg hc] at ht ⊢
        exact ht

theorem quiet_word {t after : Text} (ht : ∀ c ∈ t, Postgres.isIdentCont c = true)
    (hafter : ∀ c ∈ after.head?, Postgres.isIdentCont c = false) (h : noTag t = true) : quiet after t = true := by
  induction t with
  | nil => rfl
  | cons c t ih =>
      obtain ⟨hc, ht⟩ := List.forall_mem_cons.mp ht
      simp only [noTag, Bool.and_eq_true, Bool.or_eq_true, decide_eq_true_eq] at h
      rw [quiet, ih ht h.2, Bool.and_true]
      by_cases hdollar : c = '$'
      · subst hdollar
        have hrest := head_dropWhile_append hafter (h.1.resolve_left (absurd rfl))
        simp [quietAt, hrest]
      · exact quietAt_of_isIdentCont hc hdollar _

theorem quiet_digits (after t : Text) : quiet after (t.takeWhile isAsciiDigit) = true :=
  quiet_of_isPlain (fun _ hc => isPlain_of_isAsciiDigit (List.mem_takeWhile_imp hc)) after

theorem quiet_fraction (after t : Text) : quiet after (Postgres.fraction t).1 = true := by
  unfold Postgres.fraction
  split
  · rfl
  · exact quiet_of_isPlain (List.forall_mem_cons.mpr
      ⟨by decide, fun _ hc => isPlain_of_isAsciiDigit (List.mem_takeWhile_imp hc)⟩) after
  · rfl

/-- The sign of an exponent stands in front of a digit, so no comment starts there. -/
theorem quiet_exponent (after t : Text) : quiet after (Postgres.exponent t).1 = true := by
  have hletter : ∀ e : Char, e = 'e' ∨ e = 'E' → isPlain e = true := by
    rintro e (rfl | rfl)
    all_goals decide
  unfold Postgres.exponent
  split
  case h_1 e sign d t =>
    split
    case isTrue he =>
      split
      case isTrue => rw [quiet, quietAt_of_isPlain (hletter e he), quiet_digits]; rfl
      case isFalse =>
        split
        case isTrue hsign =>
          obtain ⟨hsign, hd⟩ := hsign
          rw [quiet, quietAt_of_isPlain (hletter e he), quiet, quiet_digits, Bool.true_and, Bool.and_true,
            List.takeWhile_cons_of_pos hd]
          obtain rfl | rfl := hsign
          · exact quietAt_of_isPlain (by decide) _
          · have hne : d ≠ '-' := by
              rintro rfl
              exact absurd hd (by decide)
            simp [quietAt, hne]
        case isFalse => rfl
    case isFalse => rfl
  case h_2 e d =>
    split
    case isTrue h =>
      rw [quiet, quietAt_of_isPlain (hletter e h.1), quiet, quietAt_of_isPlain (isPlain_of_isAsciiDigit h.2)]
      rfl
    case isFalse => rfl
  case h_3 => rfl

theorem quiet_number (after t : Text) : quiet after (Postgres.number t).1 = true := by
  unfold Postgres.number
  rw [quiet_append, quiet_append, quiet_digits, quiet_fraction, quiet_exponent]
  rfl

theorem quiet_pointNumber (after t : Text) : quiet after (Postgres.pointNumber t).1 = true := by
  unfold Postgres.pointNumber
  rw [quiet_append, quiet_digits, quiet_exponent]
  rfl

/-! ## One token -/

/-- `-- ...` up to the end of the line. -/
def isLine (t : Token) : Bool := t.kind = .comment && t.raw.head? = some '-'

/-- A carriage return in front of the newline still belongs to the comment. -/
def endLine : Labelled → Labelled
  | (_, '\r') :: l => (.inside, '\r') :: l
  | l => l

/-- The labels behind a token. -/
def behind (t : Token) (l : Labelled) : Labelled := if isLine t then endLine l else l

theorem scanFrom_endLine {t : Text} (h : endsLine (t.dropWhile Postgres.nonNewline) = true) :
    scanFrom .line (t.dropWhile Postgres.nonNewline) = endLine (scanFrom .base (t.dropWhile Postgres.nonNewline)) := by
  cases hrest : t.dropWhile Postgres.nonNewline with
  | nil => rfl
  | cons c rest =>
      have hc : Postgres.nonNewline c = false := by
        have hstop := List.head?_dropWhile_not Postgres.nonNewline t
        rw [hrest] at hstop
        exact hstop
      have hcases : c = '\n' ∨ c = '\r' := by
        simpa only [Postgres.nonNewline, Bool.and_eq_false_iff, decide_eq_false_iff_not, not_not] using hc
      rw [hrest] at h
      obtain rfl | rfl := hcases
      · rfl
      · -- the walk reads on to the newline, which is the next character or not there
        have hbase : scanFrom .base ('\r' :: rest) = (.code, '\r') :: scanFrom .base rest := scanFrom_plain (by decide) rest
        have hline : scanFrom .line ('\r' :: rest) = (.inside, '\r') :: scanFrom .line rest := by
          rw [scanFrom_cons, scanStep, if_neg (by decide)]
          rfl
        rw [hbase, hline]
        cases rest with
        | nil => rfl
        | cons d rest =>
            have hd : d = '\n' := of_decide_eq_true h
            subst hd
            rfl

theorem scanFrom_inLine (t : Text) :
    scanFrom .line t = inside (t.takeWhile Postgres.nonNewline) ++ scanFrom .line (t.dropWhile Postgres.nonNewline) := by
  induction t with
  | nil => rfl
  | cons c t ih =>
      by_cases hc : Postgres.nonNewline c = true
      · have hnew : c ≠ '\n' := by
          rintro rfl
          exact absurd hc (by decide)
        have hstep : scanFrom .line (c :: t) = (.inside, c) :: scanFrom .line t := by
          rw [scanFrom_cons, scanStep, if_neg hnew]
          rfl
        rw [List.takeWhile_cons_of_pos hc, List.dropWhile_cons_of_pos hc, hstep, ih]
        rfl
      · rw [List.takeWhile_cons_of_neg hc, List.dropWhile_cons_of_neg hc]
        rfl

theorem scanFrom_string {standard : Bool} {t : Text}
    (h : (!standard || noEscapedQuote '\'' (Postgres.string standard t).1) = true) :
    scanFrom .base ('\'' :: t) =
      (.opener, '\'') :: (inside (Postgres.string standard t).1 ++ scanFrom .base (Postgres.string standard t).2) := by
  have hliteral : literal '\'' t = Postgres.string standard t := by
    unfold Postgres.string at h ⊢
    split
    case isTrue hon =>
      subst hon
      exact literal_eq_quoted (by decide) t (by simpa using h)
    case isFalse => exact literal_eq_escaped t
  rw [scanFrom_quote (.inl rfl), hliteral]

theorem scanFrom_lineComment {t : Text} (h : endsLine (t.dropWhile Postgres.nonNewline) = true) :
    scanFrom .base ('-' :: '-' :: t) =
      (.opener, '-') :: (.inside, '-') :: (inside (t.takeWhile Postgres.nonNewline) ++
        endLine (scanFrom .base (t.dropWhile Postgres.nonNewline))) := by
  have hopen : scanFrom .base ('-' :: '-' :: t) = (.opener, '-') :: (.inside, '-') :: scanFrom .line t := by
    rw [scanFrom_cons, scanFrom_cons]
    rfl
  rw [hopen, scanFrom_inLine, scanFrom_endLine h]

theorem scanFrom_word {c : Char} {t : Text} (hc : Postgres.isIdentStart c = true)
    (h : noTag (c :: t.takeWhile Postgres.isIdentCont) = true) :
    scanFrom .base (c :: t) =
      code (c :: t.takeWhile Postgres.isIdentCont) ++ scanFrom .base (t.dropWhile Postgres.isIdentCont) := by
  have hfirst : Postgres.isIdentCont c = true := by
    rw [Postgres.isIdentCont, Postgres.isTagCont, hc]
    rfl
  have hall : ∀ d ∈ c :: t.takeWhile Postgres.isIdentCont, Postgres.isIdentCont d = true :=
    List.forall_mem_cons.mpr ⟨hfirst, fun d hd => List.mem_takeWhile_imp hd⟩
  have hafter : ∀ d ∈ (t.dropWhile Postgres.isIdentCont).head?, Postgres.isIdentCont d = false := by
    intro d hd
    have hstop := List.head?_dropWhile_not Postgres.isIdentCont t
    rw [hd] at hstop
    exact hstop
  rw [← scanFrom_quiet (quiet_word hall hafter h), List.cons_append, List.takeWhile_append_dropWhile]

theorem scanFrom_number {c : Char} (hc : isPlain c = true) (t : Text) :
    scanFrom .base (c :: t) = code (c :: (Postgres.number t).1) ++ scanFrom .base (Postgres.number t).2 := by
  have hquiet : quiet (Postgres.number t).2 (c :: (Postgres.number t).1) = true := by
    rw [quiet, quietAt_of_isPlain hc, quiet_number]
    rfl
  rw [← scanFrom_quiet hquiet, List.cons_append, Postgres.number_append]

theorem scanFrom_pointNumber {c : Char} (hc : isPlain c = true) (t : Text) :
    scanFrom .base (c :: t) = code (c :: (Postgres.pointNumber t).1) ++ scanFrom .base (Postgres.pointNumber t).2 := by
  have hquiet : quiet (Postgres.pointNumber t).2 (c :: (Postgres.pointNumber t).1) = true := by
    rw [quiet, quietAt_of_isPlain hc, quiet_pointNumber]
    rfl
  rw [← scanFrom_quiet hquiet, List.cons_append, Postgres.pointNumber_append]

theorem scanFrom_param {t : Text} (h : (t.dropWhile isTagChar).head? ≠ some '$') :
    scanFrom .base ('$' :: t) =
      code ('$' :: t.takeWhile isAsciiDigit) ++ scanFrom .base (t.dropWhile isAsciiDigit) := by
  have hquiet : quiet (t.dropWhile isAsciiDigit) ('$' :: t.takeWhile isAsciiDigit) = true := by
    rw [quiet, quiet_digits, List.takeWhile_append_dropWhile]
    simp [quietAt, h]
  rw [← scanFrom_quiet hquiet, List.cons_append, List.takeWhile_append_dropWhile]

/-- A name that the walk takes for the name of a tag. -/
theorem isTagChar_of_tag {name body : Text} (hname : ∀ c ∈ name, Postgres.isTagCont c = true)
    (h : ((name ++ '$' :: body).dropWhile isTagChar).head? = some '$') : ∀ c ∈ name, isTagChar c = true := by
  induction name with
  | nil => exact fun c hc => absurd hc List.not_mem_nil
  | cons d name ih =>
      obtain ⟨hd, hname⟩ := List.forall_mem_cons.mp hname
      rw [List.cons_append] at h
      by_cases htag : isTagChar d = true
      · rw [List.dropWhile_cons_of_pos htag] at h
        exact List.forall_mem_cons.mpr ⟨htag, ih hname h⟩
      · rw [List.dropWhile_cons_of_neg htag, List.head?_cons, Option.some.injEq] at h
        subst h
        exact absurd hd (by decide)

/-- What the walk takes for a tag is one, unless it starts with a digit. -/
theorem dollarTag_of_run {t : Text} (h : (t.dropWhile isTagChar).head? = some '$')
    (hdigit : t.head?.any isAsciiDigit = false) : Postgres.dollarTag t ≠ none := by
  obtain ⟨body, hbody⟩ := List.head?_eq_some_iff.mp h
  have hrun : ∀ c ∈ t.takeWhile isTagChar, Postgres.isTagCont c = true := by
    intro c hc
    have htag : isTagChar c = true := List.mem_takeWhile_imp hc
    simp only [isTagChar, isAsciiAlphanumeric, Bool.or_eq_true, beq_iff_eq] at htag
    simp only [Postgres.isTagCont, Postgres.isIdentStart, Bool.or_eq_true, beq_iff_eq]
    tauto
  have hsplit : t = t.takeWhile isTagChar ++ '$' :: body := by
    rw [← hbody, List.takeWhile_append_dropWhile]
  have hstop : ¬ Postgres.isTagCont '$' = true := by decide
  have hname : t.takeWhile Postgres.isTagCont = t.takeWhile isTagChar := by
    conv_lhs => rw [hsplit]
    rw [List.takeWhile_append_of_pos hrun, List.takeWhile_cons_of_neg hstop, List.append_nil]
  have hrest : t.dropWhile Postgres.isTagCont = '$' :: body := by
    conv_lhs => rw [hsplit]
    rw [List.dropWhile_append_of_pos hrun, List.dropWhile_cons_of_neg hstop]
  have hhead : (t.takeWhile isTagChar).head?.any isAsciiDigit = false := by
    cases t with
    | nil => rfl
    | cons c t =>
        rw [List.takeWhile_cons]
        split
        · exact hdigit
        · rfl
  unfold Postgres.dollarTag
  simp [hname, hrest, hhead]

theorem scanFrom_reads {standard : Bool} {c : Char} {t : Text} {r : Token × Text} (hr : Reads standard c t r)
    (h : readAlike standard r.1 r.2 = true) :
    scanFrom .base (c :: t) = tokenLabels r.1 ++ behind r.1 (scanFrom .base r.2) := by
  cases hr with
  | space hspace =>
      rw [scanFrom_plain (isPlain_of_isSpace hspace)]
      rfl
  | line =>
      rw [scanFrom_lineComment h]
      rfl
  | comment =>
      rw [scanFrom_block]
      rfl
  | string =>
      rw [scanFrom_string h]
      rfl
  | quotedWord =>
      rw [scanFrom_quote (.inr rfl), literal_eq_quoted (by decide) _ h]
      rfl
  | escapeString hc =>
      have hplain : isPlain c = true := by
        obtain rfl | rfl := hc
        all_goals decide
      rw [scanFrom_plain hplain, scanFrom_quote (.inl rfl), literal_eq_escaped]
      rfl
  | word hc =>
      rw [scanFrom_word hc h]
      rfl
  | dollarString hname =>
      rw [scanFrom_tagged (isTagChar_of_tag hname (of_decide_eq_true h))]
      simp [tokenLabels, behind, isLine]
  | param =>
      have hrun : (t.dropWhile isTagChar).head? ≠ some '$' := by
        simpa [readAlike, List.takeWhile_append_dropWhile] using h
      rw [scanFrom_param hrun]
      rfl
  | number hc =>
      rw [scanFrom_number (isPlain_of_isAsciiDigit hc)]
      rfl
  | pointNumber =>
      rw [scanFrom_pointNumber (by decide)]
      rfl
  | symbol hsymbol =>
      have hrun : c = '$' → (t.dropWhile isTagChar).head? ≠ some '$' :=
        fun hc hrun => dollarTag_of_run hrun (hsymbol.dollar hc).2 (hsymbol.dollar hc).1
      have hquiet : quietAt c t = true := by
        obtain ⟨-, ⟨hquote, hdouble⟩, -, -, hdash, hslash, -⟩ := hsymbol
        simp only [quietAt, Bool.and_eq_true, Bool.or_eq_true, decide_eq_true_eq]
        tauto
      rw [scanFrom_quietAt hquiet]
      rfl

/-! ## The whole text -/

/-- The labels of some tokens. -/
def labels : List Token → Labelled
  | [] => []
  | t :: ts => tokenLabels t ++ behind t (labels ts)

/-- Where every token is read alike, its characters have the labels it gives them. -/
theorem scan_alike {standard : Bool} {t : Text} (h : allAlike standard (lex standard t) = true) :
    walk.scan t = labels (lex standard t) := by
  rw [walk_scan]
  induction t using Postgres.lex_induction standard with
  | nil => rfl
  | cons c t ih =>
      rw [Postgres.lex_cons, allAlike, Postgres.lex_raw, Bool.and_eq_true] at h
      rw [Postgres.lex_cons, labels, scanFrom_reads (Postgres.next_reads standard c t) h.1, ih h.2]

theorem tokenLabels_text (t : Token) : (tokenLabels t).map Prod.snd = t.raw := by
  have hinside : ∀ r : Text, (inside r).map Prod.snd = r := fun r => by simp [inside, Function.comp_def]
  have hcode : ∀ r : Text, (code r).map Prod.snd = r := fun r => by simp [code, Function.comp_def]
  unfold tokenLabels
  split <;> simp_all

/-! ## Semicolons -/

theorem semicolon_notMem {p : Char → Bool} (hp : p ';' = false) (t : Text) : ';' ∉ t.takeWhile p :=
  fun hmem => Bool.false_ne_true (hp.symm.trans (List.mem_takeWhile_imp hmem))

theorem semicolon_notMem_fraction (t : Text) : ';' ∉ (Postgres.fraction t).1 := by
  unfold Postgres.fraction
  split
  · exact List.not_mem_nil
  · simpa using semicolon_notMem (p := isAsciiDigit) (by decide) _
  · exact List.not_mem_nil

theorem semicolon_notMem_exponent (t : Text) : ';' ∉ (Postgres.exponent t).1 := by
  have hdigits : ∀ t : Text, ';' ∉ t.takeWhile isAsciiDigit := semicolon_notMem (by decide)
  have hletter : ∀ e : Char, e = 'e' ∨ e = 'E' → ';' ≠ e := by
    rintro e (rfl | rfl)
    all_goals decide
  unfold Postgres.exponent
  split
  case h_1 e sign d t =>
    split
    case isTrue he =>
      split
      case isTrue => exact List.not_mem_cons_of_ne_of_not_mem (hletter e he) (hdigits _)
      case isFalse =>
        split
        case isTrue hsign =>
          have hne : ';' ≠ sign := by
            obtain rfl | rfl := hsign.1
            all_goals decide
          exact List.not_mem_cons_of_ne_of_not_mem (hletter e he) (List.not_mem_cons_of_ne_of_not_mem hne (hdigits _))
        case isFalse => exact List.not_mem_nil
    case isFalse => exact List.not_mem_nil
  case h_2 e d =>
    split
    case isTrue h =>
      have hne : ';' ≠ d := by
        rintro rfl
        exact absurd h.2 (by decide)
      exact List.not_mem_cons_of_ne_of_not_mem (hletter e h.1) (List.not_mem_cons_of_ne_of_not_mem hne List.not_mem_nil)
    case isFalse => exact List.not_mem_nil
  case h_3 => exact List.not_mem_nil

theorem mem_code {c : Char} {t : Text} : (Label.code, c) ∈ code t ↔ c ∈ t := by simp [code]

theorem notMem_inside (c : Char) (t : Text) : (Label.code, c) ∉ inside t := by simp [inside]

/-- A semicolon that is code is a token of its own. -/
theorem tokenLabels_semicolon {standard : Bool} {c : Char} {t : Text} {r : Token × Text} (hr : Reads standard c t r)
    (h : r.1.isSemicolon = false) : (Label.code, ';') ∉ tokenLabels r.1 := by
  have hopened : ∀ (d : Char) (body : Text), (Label.code, ';') ∉ (Label.opener, d) :: inside body := fun d body =>
    List.not_mem_cons_of_ne_of_not_mem (by simp) (notMem_inside ';' body)
  have hcode : ∀ raw : Text, ';' ∉ raw → (Label.code, ';') ∉ code raw := fun raw hraw hmem => hraw (mem_code.mp hmem)
  cases hr with
  | line | comment | string | quotedWord | dollarString => exact hopened _ _
  | space hspace =>
      refine hcode _ (List.not_mem_cons_of_ne_of_not_mem ?_ List.not_mem_nil)
      rintro rfl
      exact absurd hspace (by decide)
  | escapeString hc =>
      refine List.not_mem_cons_of_ne_of_not_mem ?_ (hopened _ _)
      obtain rfl | rfl := hc
      all_goals simp
  | word hc =>
      refine hcode _ (List.not_mem_cons_of_ne_of_not_mem ?_ (semicolon_notMem (by decide) t))
      rintro rfl
      exact absurd hc (by decide)
  | param => exact hcode _ (List.not_mem_cons_of_ne_of_not_mem (by decide) (semicolon_notMem (by decide) t))
  | number hc =>
      refine hcode _ (List.not_mem_cons_of_ne_of_not_mem ?_ ?_)
      · rintro rfl
        exact absurd hc (by decide)
      · simp [Postgres.number, semicolon_notMem (p := isAsciiDigit) (by decide) t, semicolon_notMem_fraction,
          semicolon_notMem_exponent]
  | pointNumber =>
      refine hcode _ (List.not_mem_cons_of_ne_of_not_mem (by decide) ?_)
      simp [Postgres.pointNumber, semicolon_notMem (p := isAsciiDigit) (by decide) t, semicolon_notMem_exponent]
  | symbol =>
      refine hcode _ (List.not_mem_cons_of_ne_of_not_mem ?_ List.not_mem_nil)
      rintro rfl
      exact absurd h (by simp [Token.isSemicolon])

/-! ## Cutting -/

theorem cutAtSemicolons_behind (t : Token) (cur : Text) (l : Labelled) :
    cutAtSemicolons cur (behind t l) = cutAtSemicolons cur l := by
  unfold behind
  split
  case isTrue =>
    unfold endLine
    split
    · simp [cutAtSemicolons]
    · rfl
  case isFalse => rfl

/-- Labels without a semicolon belong to the piece that is being read. -/
theorem cutAtSemicolons_append {x : Labelled} (h : (Label.code, ';') ∉ x) (cur : Text) (l : Labelled) :
    cutAtSemicolons cur (x ++ l) = cutAtSemicolons ((x.map Prod.snd).reverse ++ cur) l := by
  induction x generalizing cur with
  | nil => rfl
  | cons y x ih =>
      obtain ⟨label, c⟩ := y
      have hy : ¬ (label = .code ∧ c = ';') := by
        rintro ⟨rfl, rfl⟩
        exact h List.mem_cons_self
      rw [List.cons_append, cutAtSemicolons, if_neg hy, ih (fun hmem => h (List.mem_cons_of_mem _ hmem))]
      simp

/-- What both cuts need of a token. -/
def Solid (t : Token) : Prop := t.raw ≠ [] ∧ (t.isSemicolon = false → (Label.code, ';') ∉ tokenLabels t)

theorem solid_of_mem_lex {standard : Bool} {t : Text} : ∀ tok ∈ lex standard t, Solid tok :=
  Postgres.lex_forall standard (fun c t => ⟨Postgres.next_raw_ne standard c t,
    tokenLabels_semicolon (Postgres.next_reads standard c t)⟩) t

theorem raws_eq_nil {tokens : List Token} (h : ∀ t ∈ tokens, Solid t) : raws tokens = [] ↔ tokens = [] := by
  refine ⟨fun hnil => ?_, fun hnil => by rw [hnil]; rfl⟩
  rw [raws, List.flatMap_eq_nil_iff] at hnil
  exact List.eq_nil_iff_forall_not_mem.mpr fun t ht => (h t ht).1 (hnil t ht)

theorem eq_semicolon {t : Token} (h : t.isSemicolon = true) : t = ⟨.symbol, [';']⟩ := by
  obtain ⟨kind, raw⟩ := t
  simp only [Token.isSemicolon, Bool.and_eq_true, decide_eq_true_eq] at h
  obtain ⟨rfl, rfl⟩ := h
  rfl

/-- Cutting the labels of some tokens is cutting the tokens. -/
theorem cutAtSemicolons_tokens (cur tokens : List Token) (hcur : ∀ t ∈ cur, Solid t) (h : ∀ t ∈ tokens, Solid t) :
    cutAtSemicolons (raws cur.reverse).reverse (labels tokens) = (Postgres.cut cur tokens).map raws := by
  induction tokens generalizing cur with
  | nil =>
      match cur with
      | [] => rfl
      | t :: cur =>
          have hne : (raws (t :: cur).reverse).reverse.isEmpty = false := by
            rw [List.isEmpty_eq_false_iff]
            intro hnil
            have hcur' := fun u hu => hcur u (List.mem_reverse.mp hu)
            exact absurd ((raws_eq_nil hcur').mp (List.reverse_eq_nil_iff.mp hnil)) (by simp)
          rw [labels, cutAtSemicolons, hne, List.reverse_reverse]
          rfl
  | cons t tokens ih =>
      obtain ⟨ht, htokens⟩ := List.forall_mem_cons.mp h
      rw [labels, Postgres.cut]
      by_cases hsemi : t.isSemicolon = true
      · have hlabels : tokenLabels t = [(.code, ';')] := by
          rw [eq_semicolon hsemi]
          rfl
        rw [hlabels, List.singleton_append, cutAtSemicolons, if_pos ⟨rfl, rfl⟩, if_pos hsemi, List.map_cons,
          List.reverse_reverse, cutAtSemicolons_behind, ← ih [] (fun u hu => absurd hu List.not_mem_nil) htokens]
        rfl
      · have hread : (tokenLabels t).map Prod.snd = t.raw := tokenLabels_text t
        have hcur' : (t.raw).reverse ++ (raws cur.reverse).reverse = (raws (t :: cur).reverse).reverse := by
          simp [raws]
        rw [cutAtSemicolons_append (ht.2 (Bool.eq_false_iff.mpr hsemi)), hread, hcur', if_neg hsemi,
          cutAtSemicolons_behind, ih (t :: cur) (List.forall_mem_cons.mpr ⟨ht, hcur⟩) htokens]

/-- **Where every token is read alike, the text is cut where PostgreSQL cuts it.** -/
theorem split_alike {standard : Bool} {sql : Text} (h : allAlike standard (lex standard sql) = true) :
    splitStatements sql = (statements standard sql).map raws := by
  unfold splitStatements statements
  rw [scan_alike h]
  exact cutAtSemicolons_tokens [] (lex standard sql) (fun t ht => absurd ht List.not_mem_nil) solid_of_mem_lex

end Havuz.Sql
