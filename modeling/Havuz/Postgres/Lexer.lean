import Mathlib.Data.List.TakeWhile
import Havuz.Text

/-!
# How PostgreSQL reads a text

The lexical rules of PostgreSQL. A backslash is an escape in `E'...'`, and in every string where
`standard_conforming_strings` is off, never in a quoted identifier. The tag of a dollar quote is an identifier, and a
dollar inside an identifier is part of it; block comments nest. Literals and comments that are not ended go on to the
end of the text. Integers with a base or with underscores, which only the newest versions have, are left out.

Nothing of a text is lost between its tokens (`lex_raw`), and `lex_cons` is how a proof goes through them.
-/

namespace Havuz.Postgres

/-! ## Characters -/

/-- `space`. -/
def isSpace (c : Char) : Bool :=
  c == ' ' || c == '\t' || c == '\n' || c == '\r' || c == Char.ofNat 11 || c == Char.ofNat 12

/-- `non_newline`. -/
def nonNewline (c : Char) : Bool := c ≠ '\n' && c ≠ '\r'

/-- `ident_start`. -/
def isIdentStart (c : Char) : Bool := isAsciiAlphabetic c || c == '_' || decide (0x80 ≤ c.toNat)

/-- `dolq_cont`. -/
def isTagCont (c : Char) : Bool := isIdentStart c || isAsciiDigit c

/-- `ident_cont`. -/
def isIdentCont (c : Char) : Bool := isTagCont c || c == '$'

/-! ## Literals and comments -/

/-- A quoted text behind its opening quote, where the quote is escaped by doubling, and what is left. -/
def quoted (q : Char) : Text → Text × Text
  | [] => ([], [])
  | [c] => ([c], [])
  | c :: d :: t =>
      if c = q then
        if d = q then (c :: d :: (quoted q t).1, (quoted q t).2) else ([c], d :: t)
      else (c :: (quoted q (d :: t)).1, (quoted q (d :: t)).2)

/-- The same for `E'...'`, where a backslash escapes what stands behind it. -/
def escaped : Text → Text × Text
  | [] => ([], [])
  | [c] => ([c], [])
  | c :: d :: t =>
      if c = '\\' then (c :: d :: (escaped t).1, (escaped t).2)
      else if c = '\'' then
        if d = '\'' then (c :: d :: (escaped t).1, (escaped t).2) else ([c], d :: t)
      else (c :: (escaped (d :: t)).1, (escaped (d :: t)).2)

/-- `'...'` behind its opening quote. -/
def string (standard : Bool) (t : Text) : Text × Text := if standard then quoted '\'' t else escaped t

/-- A block comment behind its first `/*`, at a depth. -/
def block : ℕ → Text → Text × Text
  | 0, t => ([], t)
  | _ + 1, [] => ([], [])
  | _ + 1, [c] => ([c], [])
  | depth + 1, c :: d :: t =>
      if c = '/' ∧ d = '*' then (c :: d :: (block (depth + 2) t).1, (block (depth + 2) t).2)
      else if c = '*' ∧ d = '/' then (c :: d :: (block depth t).1, (block depth t).2)
      else (c :: (block (depth + 1) (d :: t)).1, (block (depth + 1) (d :: t)).2)

/-- Up to and with the closing tag. -/
def throughTag (tag : Text) : Text → Text × Text
  | [] => ([], [])
  | c :: t =>
      if tag.isPrefixOf (c :: t) then (tag, (c :: t).drop tag.length)
      else (c :: (throughTag tag t).1, (throughTag tag t).2)

/-- The name of a tag behind its first dollar, and what stands behind the second. -/
def dollarTag (t : Text) : Option (Text × Text) :=
  let name := t.takeWhile isTagCont
  if name.head?.any isAsciiDigit then none
  else
    match t.dropWhile isTagCont with
    | '$' :: body => some (name, body)
    | _ => none

/-- The fraction behind the digits of a number; two dots are none. -/
def fraction : Text → Text × Text
  | '.' :: '.' :: t => ([], '.' :: '.' :: t)
  | '.' :: t => ('.' :: t.takeWhile isAsciiDigit, t.dropWhile isAsciiDigit)
  | t => ([], t)

/-- The exponent of a number. -/
def exponent : Text → Text × Text
  | e :: sign :: d :: t =>
      if e = 'e' ∨ e = 'E' then
        if isAsciiDigit sign then
          (e :: (sign :: d :: t).takeWhile isAsciiDigit, (sign :: d :: t).dropWhile isAsciiDigit)
        else if (sign = '+' ∨ sign = '-') ∧ isAsciiDigit d then
          (e :: sign :: (d :: t).takeWhile isAsciiDigit, (d :: t).dropWhile isAsciiDigit)
        else ([], e :: sign :: d :: t)
      else ([], e :: sign :: d :: t)
  | [e, d] => if (e = 'e' ∨ e = 'E') ∧ isAsciiDigit d then ([e, d], []) else ([], [e, d])
  | t => ([], t)

/-- A number behind its first digit. -/
def number (t : Text) : Text × Text :=
  let digits := t.takeWhile isAsciiDigit
  let frac := fraction (t.dropWhile isAsciiDigit)
  let exp := exponent frac.2
  (digits ++ frac.1 ++ exp.1, exp.2)

/-- A number behind the dot it starts with. -/
def pointNumber (t : Text) : Text × Text :=
  let exp := exponent (t.dropWhile isAsciiDigit)
  (t.takeWhile isAsciiDigit ++ exp.1, exp.2)

/-! ## Tokens -/

inductive Kind where
  | space
  | comment
  /-- An identifier or a keyword, not quoted. -/
  | word
  | quotedWord
  | string
  | escapeString
  | dollarString
  | number
  | param
  /-- Any other character. -/
  | symbol
deriving DecidableEq, Repr

structure Token where
  kind : Kind
  raw : Text
deriving DecidableEq, Repr

/-- What starts with a dollar. -/
def nextDollar (t : Text) : Token × Text :=
  match dollarTag t with
  | some (name, body) =>
      (⟨.dollarString, '$' :: (name ++ '$' :: (throughTag ('$' :: (name ++ ['$'])) body).1)⟩,
        (throughTag ('$' :: (name ++ ['$'])) body).2)
  | none =>
      if t.head?.any isAsciiDigit then
        (⟨.param, '$' :: t.takeWhile isAsciiDigit⟩, t.dropWhile isAsciiDigit)
      else (⟨.symbol, ['$']⟩, t)

/-- The token a text starts with, and what is left. -/
def next (standard : Bool) (c : Char) (t : Text) : Token × Text :=
  if isSpace c then (⟨.space, [c]⟩, t)
  else if c = '-' ∧ t.head? = some '-' then
    (⟨.comment, c :: t.takeWhile nonNewline⟩, t.dropWhile nonNewline)
  else if c = '/' ∧ t.head? = some '*' then
    (⟨.comment, c :: '*' :: (block 1 t.tail).1⟩, (block 1 t.tail).2)
  else if c = '\'' then (⟨.string, c :: (string standard t).1⟩, (string standard t).2)
  else if c = '"' then (⟨.quotedWord, c :: (quoted '"' t).1⟩, (quoted '"' t).2)
  else if (c = 'E' ∨ c = 'e') ∧ t.head? = some '\'' then
    (⟨.escapeString, c :: '\'' :: (escaped t.tail).1⟩, (escaped t.tail).2)
  else if isIdentStart c then (⟨.word, c :: t.takeWhile isIdentCont⟩, t.dropWhile isIdentCont)
  else if c = '$' then nextDollar t
  else if isAsciiDigit c then (⟨.number, c :: (number t).1⟩, (number t).2)
  else if c = '.' ∧ t.head?.any isAsciiDigit then (⟨.number, c :: (pointNumber t).1⟩, (pointNumber t).2)
  else (⟨.symbol, [c]⟩, t)

/-- The loop of the lexer. -/
def lexLoop (standard : Bool) : ℕ → Text → List Token
  | 0, _ => []
  | _, [] => []
  | fuel + 1, c :: t => (next standard c t).1 :: lexLoop standard fuel (next standard c t).2

/-- The tokens of a text, with its blanks and comments. -/
def lex (standard : Bool) (t : Text) : List Token := lexLoop standard t.length t

/-- The text of some tokens. -/
def raws (tokens : List Token) : Text := tokens.flatMap Token.raw

/-! ## Statements -/

/-- A semicolon outside every literal and comment. -/
def Token.isSemicolon (t : Token) : Bool := t.kind = .symbol && t.raw = [';']

/-- Cut at the semicolons. What stands behind the last one is a piece if it is not empty. -/
def cut : List Token → List Token → List (List Token)
  | cur, [] => if cur.isEmpty then [] else [cur.reverse]
  | cur, t :: rest => if t.isSemicolon then cur.reverse :: cut [] rest else cut (t :: cur) rest

/-- The statements of a text, as tokens. -/
def statements (standard : Bool) (t : Text) : List (List Token) := cut [] (lex standard t)

example : (statements true "SELECT 'a\\'; x$y$z; E'\\';' /* /* */; */".toList).map raws =
    ["SELECT 'a\\'".toList, " x$y$z".toList, " E'\\';' /* /* */; */".toList] := by decide

/-! ## Nothing is lost -/

variable (standard : Bool)

theorem quoted_append (q : Char) (t : Text) : (quoted q t).1 ++ (quoted q t).2 = t := by
  fun_induction quoted q t <;> simp_all

theorem escaped_append (t : Text) : (escaped t).1 ++ (escaped t).2 = t := by
  fun_induction escaped t <;> simp_all

theorem string_append (t : Text) : (string standard t).1 ++ (string standard t).2 = t := by
  unfold string
  split
  · exact quoted_append '\'' t
  · exact escaped_append t

theorem block_append (depth : ℕ) (t : Text) : (block depth t).1 ++ (block depth t).2 = t := by
  fun_induction block depth t <;> simp_all

theorem throughTag_append (tag t : Text) : (throughTag tag t).1 ++ (throughTag tag t).2 = t := by
  fun_induction throughTag tag t with
  | case1 => rfl
  | case2 c t hpre =>
      obtain ⟨rest, hrest⟩ := List.isPrefixOf_iff_prefix.mp hpre
      rw [← hrest, List.drop_left]
  | case3 c t hpre ih => simp [ih]

/-- What a tag is. -/
theorem dollarTag_eq_some {t name body : Text} (h : dollarTag t = some (name, body)) :
    t = name ++ '$' :: body ∧ name = t.takeWhile isTagCont ∧ name.head?.any isAsciiDigit = false := by
  unfold dollarTag at h
  simp only at h
  split at h
  case isTrue => cases h
  case isFalse hdigit =>
    split at h
    case h_1 body' hrest =>
      cases h
      refine ⟨?_, rfl, by simpa using hdigit⟩
      rw [← hrest, List.takeWhile_append_dropWhile]
    case h_2 => cases h

theorem fraction_append (t : Text) : (fraction t).1 ++ (fraction t).2 = t := by
  unfold fraction
  split
  · rfl
  · simp
  · rfl

theorem exponent_append (t : Text) : (exponent t).1 ++ (exponent t).2 = t := by
  unfold exponent
  split
  · split
    · split
      · simp
      · split
        · simp
        · rfl
    · rfl
  · split <;> rfl
  · rfl

theorem number_append (t : Text) : (number t).1 ++ (number t).2 = t := by
  unfold number
  rw [List.append_assoc, exponent_append, List.append_assoc, fraction_append, List.takeWhile_append_dropWhile]

theorem pointNumber_append (t : Text) : (pointNumber t).1 ++ (pointNumber t).2 = t := by
  unfold pointNumber
  rw [List.append_assoc, exponent_append, List.takeWhile_append_dropWhile]

/-- What stands for itself: none of the other tokens starts with `c` in front of `t`. -/
structure IsSymbol (c : Char) (t : Text) : Prop where
  space : isSpace c = false
  quote : c ≠ '\'' ∧ c ≠ '"'
  ident : isIdentStart c = false
  digit : isAsciiDigit c = false
  dash : c = '-' → t.head? ≠ some '-'
  slash : c = '/' → t.head? ≠ some '*'
  dollar : c = '$' → dollarTag t = none ∧ t.head?.any isAsciiDigit = false

/-- What a text starts with, and what is left of it. -/
inductive Reads : Char → Text → Token × Text → Prop
  | space {c t} (h : isSpace c = true) : Reads c t (⟨.space, [c]⟩, t)
  | line {t} : Reads '-' ('-' :: t) (⟨.comment, '-' :: '-' :: t.takeWhile nonNewline⟩, t.dropWhile nonNewline)
  | comment {t} : Reads '/' ('*' :: t) (⟨.comment, '/' :: '*' :: (block 1 t).1⟩, (block 1 t).2)
  | string {t} : Reads '\'' t (⟨.string, '\'' :: (string standard t).1⟩, (string standard t).2)
  | quotedWord {t} : Reads '"' t (⟨.quotedWord, '"' :: (quoted '"' t).1⟩, (quoted '"' t).2)
  | escapeString {c t} (h : c = 'E' ∨ c = 'e') :
      Reads c ('\'' :: t) (⟨.escapeString, c :: '\'' :: (escaped t).1⟩, (escaped t).2)
  | word {c t} (h : isIdentStart c = true) : Reads c t (⟨.word, c :: t.takeWhile isIdentCont⟩, t.dropWhile isIdentCont)
  | dollarString {name body} (h : ∀ c ∈ name, isTagCont c = true) :
      Reads '$' (name ++ '$' :: body)
        (⟨.dollarString, '$' :: (name ++ '$' :: (throughTag ('$' :: (name ++ ['$'])) body).1)⟩,
          (throughTag ('$' :: (name ++ ['$'])) body).2)
  | param {t} : Reads '$' t (⟨.param, '$' :: t.takeWhile isAsciiDigit⟩, t.dropWhile isAsciiDigit)
  | number {c t} (h : isAsciiDigit c = true) : Reads c t (⟨.number, c :: (number t).1⟩, (number t).2)
  | pointNumber {t} : Reads '.' t (⟨.number, '.' :: (pointNumber t).1⟩, (pointNumber t).2)
  | symbol {c t} (h : IsSymbol c t) : Reads c t (⟨.symbol, [c]⟩, t)

theorem next_reads (c : Char) (t : Text) : Reads standard c t (next standard c t) := by
  unfold next
  split
  case isTrue hspace => exact .space hspace
  case isFalse hspace =>
  split
  case isTrue hline =>
    obtain ⟨rfl, hhead⟩ := hline
    obtain ⟨t, rfl⟩ := List.head?_eq_some_iff.mp hhead
    exact .line
  case isFalse hline =>
  split
  case isTrue hcomment =>
    obtain ⟨rfl, hhead⟩ := hcomment
    obtain ⟨t, rfl⟩ := List.head?_eq_some_iff.mp hhead
    exact .comment
  case isFalse hcomment =>
  split
  case isTrue hquote =>
    subst hquote
    exact .string
  case isFalse hquote =>
  split
  case isTrue hdouble =>
    subst hdouble
    exact .quotedWord
  case isFalse hdouble =>
  split
  case isTrue hescape =>
    obtain ⟨hc, hhead⟩ := hescape
    obtain ⟨t, rfl⟩ := List.head?_eq_some_iff.mp hhead
    exact .escapeString hc
  case isFalse =>
  split
  case isTrue hident => exact .word hident
  case isFalse hident =>
  -- a symbol, but for what a dollar or a digit starts
  have hsymbol (hdigit : isAsciiDigit c = false)
      (hdollar : c = '$' → dollarTag t = none ∧ t.head?.any isAsciiDigit = false) : IsSymbol c t :=
    { space := Bool.eq_false_iff.mpr hspace
      quote := ⟨hquote, hdouble⟩
      ident := Bool.eq_false_iff.mpr hident
      digit := hdigit
      dash := fun hc hhead => hline ⟨hc, hhead⟩
      slash := fun hc hhead => hcomment ⟨hc, hhead⟩
      dollar := hdollar }
  split
  case isTrue hdollar =>
    subst hdollar
    unfold nextDollar
    split
    case h_1 name body htag =>
      obtain ⟨rfl, hname, -⟩ := dollarTag_eq_some htag
      exact .dollarString fun d hd => List.mem_takeWhile_imp (hname ▸ hd)
    case h_2 htag =>
      split
      case isTrue => exact .param
      case isFalse hdigit => exact .symbol (hsymbol (by decide) fun _ => ⟨htag, Bool.eq_false_iff.mpr hdigit⟩)
  case isFalse hdollar =>
  split
  case isTrue hdigit => exact .number hdigit
  case isFalse hdigit =>
  split
  case isTrue hpoint =>
    obtain ⟨rfl, -⟩ := hpoint
    exact .pointNumber
  case isFalse => exact .symbol (hsymbol (Bool.eq_false_iff.mpr hdigit) fun hc => absurd hc hdollar)

variable {standard} in
theorem Reads.append {c : Char} {t : Text} {r : Token × Text} (h : Reads standard c t r) : r.1.raw ++ r.2 = c :: t := by
  cases h with
  | space | symbol => rfl
  | line | word | param => simp
  | comment => simp [block_append]
  | string => simp [string_append]
  | quotedWord => simp [quoted_append]
  | escapeString => simp [escaped_append]
  | dollarString => simp [throughTag_append]
  | number => simp [number_append]
  | pointNumber => simp [pointNumber_append]

theorem next_append (c : Char) (t : Text) : (next standard c t).1.raw ++ (next standard c t).2 = c :: t :=
  (next_reads standard c t).append

variable {standard} in
theorem Reads.raw_ne {c : Char} {t : Text} {r : Token × Text} (h : Reads standard c t r) : r.1.raw ≠ [] := by
  cases h <;> exact List.cons_ne_nil _ _

theorem next_raw_ne (c : Char) (t : Text) : (next standard c t).1.raw ≠ [] := (next_reads standard c t).raw_ne

theorem next_length (c : Char) (t : Text) : (next standard c t).2.length ≤ t.length := by
  have hlength := congrArg List.length (next_append standard c t)
  have hpos := List.length_pos_iff.mpr (next_raw_ne standard c t)
  rw [List.length_append, List.length_cons] at hlength
  omega

/-! ## Going through the tokens -/

/-- More turns than characters are not needed. -/
theorem lexLoop_fuel (fuel : ℕ) (t : Text) (h : t.length ≤ fuel) : lexLoop standard fuel t = lex standard t := by
  induction fuel using Nat.strongRecOn generalizing t with
  | ind fuel ih =>
      match fuel, t with
      | 0, [] => rfl
      | _ + 1, [] => rfl
      | fuel + 1, c :: t =>
          have hle := next_length standard c t
          rw [List.length_cons] at h
          unfold lex
          rw [List.length_cons, lexLoop, lexLoop, ih fuel (by omega) _ (by omega)]
          congr 1
          by_cases heq : t.length = fuel
          · rw [heq, ih fuel (by omega) _ (by omega)]
          · rw [ih t.length (by omega) _ hle]

@[simp] theorem lex_nil : lex standard [] = [] := rfl

theorem lex_cons (c : Char) (t : Text) : lex standard (c :: t) = (next standard c t).1 ::
      lex standard (next standard c t).2 := by
  rw [lex, List.length_cons, lexLoop, lexLoop_fuel _ _ _ (next_length standard c t)]

/-- The induction along the tokens of a text. -/
theorem lex_induction {P : Text → Prop} (nil : P []) (cons : ∀ c t, P (next standard c t).2 → P (c :: t)) (t : Text) : P t := by
  induction h : t.length using Nat.strongRecOn generalizing t with
  | ind n ih =>
      match t with
      | [] => exact nil
      | c :: t =>
          have hle := next_length standard c t
          rw [List.length_cons] at h
          exact cons c t (ih _ (by omega) _ rfl)

/-- What is true of every token the lexer can read is true of the tokens of a text. -/
theorem lex_forall {P : Token → Prop} (h : ∀ c t, P (next standard c t).1) (t : Text) : ∀ tok ∈ lex standard t, P tok := by
  induction t using lex_induction standard with
  | nil => exact fun tok htok => absurd htok List.not_mem_nil
  | cons c t ih =>
      rw [lex_cons]
      exact List.forall_mem_cons.mpr ⟨h c t, ih⟩

/-- Nothing of a text is lost. -/
theorem lex_raw (t : Text) : raws (lex standard t) = t := by
  induction t using lex_induction standard with
  | nil => rfl
  | cons c t ih =>
      rw [lex_cons, raws, List.flatMap_cons]
      rw [raws] at ih
      rw [ih, next_append]

end Havuz.Postgres
