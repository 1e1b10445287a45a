import Mathlib
import Havuz.Jdbc.Marks
import Havuz.Postgres.Statement

/-!
# What is rewritten, and what PostgreSQL calls a parameter

Reference: `to_jdbc` of `havuz-jdbc/src/rewrite.rs`. It takes a text apart without the lexical rules that tell an
identifier, an `E'...'` string or the end of a line apart, so it agrees with PostgreSQL where the tokens are ones that it
copies whole (`scanned`). There the text that is written and the order of the values are PostgreSQL's exactly when
nothing but parameters becomes a question mark (`rewrites_iff`).
-/

namespace Havuz.Jdbc

open Postgres (Token lex raws)

/-! ## The parameters of a text -/

/-- The number of a parameter. -/
def parameter (t : Token) : Option ℕ :=
  if t.kind = .param then some (t.raw.tail.foldl (fun n c => 10 * n + (c.toNat - '0'.toNat)) 0) else none

/-- A parameter becomes a question mark, and nothing else does. -/
def rewriteToken (t : Token) : Text :=
  match parameter t with
  | some n => if 1 ≤ n then ['?'] else t.raw
  | none => t.raw

/-- The parameters from left to right, counted from zero. -/
def parameters (tokens : List Token) : List ℕ :=
  tokens.flatMap fun t => match parameter t with
    | some n => if 1 ≤ n then [n - 1] else []
    | none => []

/-- Placeholders are rewritten and nothing else, and the driver asks for as many values as there are placeholders. -/
structure Rewrites (sql : Text) : Prop where
  text : (toJdbc sql).sql = (lex true sql).flatMap rewriteToken
  order : (toJdbc sql).order = parameters (lex true sql)
  highest : (toJdbc sql).highest = ((parameters (lex true sql)).map (· + 1)).foldl max 0
  counted : marks (toJdbc sql).sql = (toJdbc sql).order.length

/-! ## The tokens that are copied whole -/

/-- A token in front of some text is one that `to_jdbc` does not take apart: no dollar of an identifier begins a quote or
a placeholder, the quote that ends an `E'...'` string is the first that ends it without the backslashes, the tag of a
dollar quote is ASCII, and a line comment ends with its line or with a `\r\n`. -/
def copiedWhole (t : Token) (rest : Text) : Bool :=
  match t.kind with
  | .word => t.raw.tails.all fun u => match u with
      | '$' :: u => dollarQuote u == none && placeholder u == none
      | _ => true
  | .escapeString => copyQuoted '\'' (t.raw.drop 2 ++ rest) == (t.raw.drop 2, rest)
  | .dollarString => (t.raw.tail.takeWhile (· ≠ '$')).all isTag
  | .comment => t.raw.head? != some '-' || rest.head? != some '\r' || rest.tail.head?.all (· == '\n')
  | _ => true

/-- Every token is. -/
def scanned : List Token → Bool
  | [] => true
  | t :: ts => copiedWhole t (raws ts) && scanned ts

/-- There are no question marks and no `$0`, and the numbers fit into 16 bits. -/
def plain (tokens : List Token) : Bool :=
  tokens.all fun t => !(t.kind = .symbol && t.raw = ['?']) && (parameter t).all fun n => 1 ≤ n && n < 65536

/-! ## Pieces -/

theorem piecesLoop_fuel (fuel : ℕ) (t : Text) (h : t.length ≤ fuel) : piecesLoop fuel t = pieces t := by
  induction fuel using Nat.strongRecOn generalizing t with
  | ind fuel ih =>
      match fuel, t with
      | 0, [] => rfl
      | fuel + 1, t =>
          cases hnext : next t with
          | none =>
              obtain rfl := next_none hnext
              rfl
          | some result =>
              obtain ⟨piece, rest⟩ := result
              have hlength := next_length hnext
              obtain ⟨n, hn⟩ : ∃ n, t.length = n + 1 := ⟨t.length - 1, by omega⟩
              rw [pieces, hn, piecesLoop, piecesLoop, hnext]
              dsimp only
              rw [ih fuel (by omega) rest (by omega)]
              by_cases heq : n = fuel
              · rw [heq, ih fuel (by omega) rest (by omega)]
              · rw [ih n (by omega) rest (by omega)]

theorem pieces_next {t rest : Text} {piece : Piece} (h : next t = some (piece, rest)) : pieces t = piece :: pieces rest := by
  have hlength := next_length h
  rw [← piecesLoop_fuel (rest.length + (t.length - rest.length)) t (by omega)]
  obtain ⟨n, hn⟩ : ∃ n, rest.length + (t.length - rest.length) = n + 1 := ⟨t.length - 1, by omega⟩
  rw [hn, piecesLoop, h]
  dsimp only
  rw [piecesLoop_fuel n rest (by omega)]

/-- The highest number is that of the placeholders. -/
theorem toJdbcLoop_highest (fuel : ℕ) (t : Text) (out : Rewritten) :
    (toJdbcLoop fuel t out).highest = (((piecesLoop fuel t).flatMap Piece.order).map (· + 1)).foldl max out.highest := by
  induction fuel generalizing t out with
  | zero => rfl
  | succ fuel ih =>
      rw [toJdbcLoop_next, piecesLoop]
      cases next t with
      | none => rfl
      | some result =>
          obtain ⟨piece, rest⟩ := result
          dsimp only
          rw [ih, List.flatMap_cons, List.map_append, List.foldl_append]
          cases piece with
          | copied text => rfl
          | char c => rfl
          | numbered number =>
              cases number with
              | zero => simp [Piece.order]
              | succ number => simp [Piece.order]

theorem toJdbc_pieces (sql : Text) :
    (toJdbc sql).sql = (pieces sql).flatMap Piece.written ∧ (toJdbc sql).order = (pieces sql).flatMap Piece.order ∧
      (toJdbc sql).highest = (((pieces sql).flatMap Piece.order).map (· + 1)).foldl max 0 := by
  obtain ⟨hsql, horder⟩ := toJdbcLoop_pieces sql.length sql ⟨[], 0, []⟩
  exact ⟨hsql, horder, toJdbcLoop_highest sql.length sql ⟨[], 0, []⟩⟩

/-- What is seen of some pieces: what is written, the order of the values, and the question marks that are no
placeholders. -/
def sums (ps : List Piece) : Text × List ℕ × ℕ :=
  (ps.flatMap Piece.written, ps.flatMap Piece.order, ps.count (.char '?') + ps.count (.numbered 0))

theorem sums_append {ps ps' qs qs' : List Piece} (h : sums ps = sums ps') (h' : sums qs = sums qs') :
    sums (ps ++ qs) = sums (ps' ++ qs') := by
  simp only [sums, Prod.mk.injEq, List.flatMap_append, List.count_append] at h h' ⊢
  obtain ⟨hw, ho, hc⟩ := h
  obtain ⟨hw', ho', hc'⟩ := h'
  exact ⟨by rw [hw, hw'], by rw [ho, ho'], by omega⟩

/-! ## The pieces of a token -/

/-- How `to_jdbc` reads a token that it copies whole. -/
def tokenPieces (t : Token) : List Piece :=
  match t.kind with
  | .string | .quotedWord | .comment | .dollarString => [.copied t.raw]
  | .escapeString => (t.raw.take 1).map .char ++ [.copied (t.raw.drop 1)]
  | .param =>
      match parameter t with
      | some n => if n < 65536 then [.numbered n] else t.raw.map .char
      | none => []
  | _ => t.raw.map .char

/-- Read character by character in front of a text. -/
def Loose : Text → Text → Prop
  | [], _ => True
  | d :: w, rest => next (d :: (w ++ rest)) = some (.char d, w ++ rest) ∧ Loose w rest

theorem pieces_loose {w rest : Text} (h : Loose w rest) : pieces (w ++ rest) = w.map .char ++ pieces rest := by
  induction w with
  | nil => rfl
  | cons c w ih =>
      rw [List.cons_append, pieces_next h.1, ih h.2]
      rfl

/-- A character that nothing begins with. -/
theorem next_char {c : Char} {t : Text} (hquote : c ≠ '\'' ∧ c ≠ '"') (hdash : c = '-' → t.head? ≠ some '-')
    (hslash : c = '/' → t.head? ≠ some '*') (hdollar : c = '$' → dollarQuote t = none ∧ placeholder t = none) :
    next (c :: t) = some (.char c, t) := by
  by_cases hc : c = '$'
  · obtain ⟨hnone, hplaceholder⟩ := hdollar hc
    subst hc
    rw [next, hnone]
    dsimp only
    rw [hplaceholder]
  · rw [next]
    · exact hquote.1
    · exact hquote.2
    · rintro r rfl rfl
      exact hdash rfl rfl
    · rintro r rfl rfl
      exact hslash rfl rfl
    · exact hc

theorem copyQuoted_eq (q : Char) (t : Text) : copyQuoted q t = Postgres.quoted q t := by
  fun_induction Postgres.quoted q t <;> simp_all [copyQuoted]

theorem copyBlockComment_eq (depth : ℕ) (t : Text) : copyBlockComment depth t = Postgres.block depth t := by
  fun_induction Postgres.block depth t with
  | case6 depth c d t h h' ih => rw [copyBlockComment, if_neg h, if_neg h', ih]
  | _ => simp_all [copyBlockComment]

theorem throughTag_eq (tag t : Text) : throughTag tag t = Postgres.throughTag tag t := by
  fun_induction Postgres.throughTag tag t <;> simp_all [throughTag]

theorem isTagCont_of_isTag {c : Char} (h : isTag c = true) : Postgres.isTagCont c = true := by
  simp only [isTag, isAsciiAlphanumeric, Bool.or_eq_true] at h
  simp only [Postgres.isTagCont, Postgres.isIdentStart, Bool.or_eq_true]
  tauto

theorem takeWhile_name {name body : Text} (hname : ∀ c ∈ name, Postgres.isTagCont c = true) :
    (name ++ '$' :: body).takeWhile Postgres.isTagCont = name ∧ (name ++ '$' :: body).dropWhile Postgres.isTagCont = '$' :: body := by
  rw [List.takeWhile_append_of_pos hname, List.dropWhile_append_of_pos hname]
  exact ⟨List.append_nil _, rfl⟩

/-- What is no tag to PostgreSQL begins no quote. -/
theorem dollarQuote_none {t : Text} (h : Postgres.dollarTag t = none) : dollarQuote t = none := by
  cases hquote : dollarQuote t with
  | none => rfl
  | some run =>
      obtain ⟨name, body, rfl, hname, hdigit, -⟩ := dollarQuote_some hquote
      obtain ⟨htake, hdrop⟩ := @takeWhile_name name body fun c hc => isTagCont_of_isTag (hname c hc)
      have hhead : ¬ name.head?.any isAsciiDigit = true := by
        cases name with
        | nil => nofun
        | cons c name => simpa [noDigit] using hdigit
      simp only [Postgres.dollarTag, htake, hdrop, if_neg hhead] at h
      cases h

theorem placeholder_none {t : Text} (h : t.head?.any isAsciiDigit = false) : placeholder t = none := by
  have hdigits : t.takeWhile isAsciiDigit = [] := by
    cases t with
    | nil => rfl
    | cons c t => exact List.takeWhile_cons_of_neg (by simpa using h)
  simp [placeholder, hdigits]

/-- A number that fits is a placeholder. -/
theorem placeholder_eq {t : Text} (h : t.head?.any isAsciiDigit = true) : placeholder t =
    if (t.takeWhile isAsciiDigit).foldl (fun n c => 10 * n + (c.toNat - '0'.toNat)) 0 < 65536 then
      some ((t.takeWhile isAsciiDigit).foldl (fun n c => 10 * n + (c.toNat - '0'.toNat)) 0, t.dropWhile isAsciiDigit)
    else none := by
  have hne : (t.takeWhile isAsciiDigit).isEmpty = false := by
    cases t with
    | nil => cases h
    | cons c t => rw [List.takeWhile_cons_of_pos (by simpa using h)]; rfl
  have hdrop : t.drop (t.takeWhile isAsciiDigit).length = t.dropWhile isAsciiDigit := by
    conv => lhs; arg 2; rw [← List.takeWhile_append_dropWhile (p := isAsciiDigit) (l := t)]
    exact List.drop_left
  simp only [placeholder, hne, hdrop, Bool.false_or, decide_eq_true_eq]
  split_ifs with h1 h2 h2
  · omega
  · rfl
  · rfl
  · omega

theorem copyLineComment_append {a r : Text} (h : ∀ c ∈ a, Postgres.nonNewline c = true) :
    copyLineComment (a ++ r) = (a ++ (copyLineComment r).1, (copyLineComment r).2) := by
  have hall : ∀ c ∈ a, (decide (c ≠ '\n')) = true := fun c hc => ((Bool.and_eq_true _ _).mp (h c hc)).1
  rw [copyLineComment, List.takeWhile_append_of_pos hall, List.dropWhile_append_of_pos hall]
  rfl

/-! ### Numbers and words -/

/-- No quote, dollar, slash or question mark, and every dash in front of something else. -/
def Harmless : Text → Prop
  | [] => True
  | d :: w => (d ≠ '\'' ∧ d ≠ '"' ∧ d ≠ '$' ∧ d ≠ '/' ∧ d ≠ '?') ∧ (d = '-' → ∃ x w', w = x :: w' ∧ x ≠ '-') ∧ Harmless w

theorem Harmless.loose {w rest : Text} (h : Harmless w) : Loose w rest := by
  induction w with
  | nil => trivial
  | cons d w ih =>
      obtain ⟨⟨hsingle, hdouble, hdollar, hslash, -⟩, hdash, hw⟩ := h
      refine ⟨next_char ⟨hsingle, hdouble⟩ (fun hd => ?_) (fun hd => absurd hd hslash) fun hd => absurd hd hdollar, ih hw⟩
      obtain ⟨x, w', rfl, hx⟩ := hdash hd
      simpa using hx

theorem Harmless.append {a b : Text} (ha : Harmless a) (hb : Harmless b) : Harmless (a ++ b) := by
  induction a with
  | nil => exact hb
  | cons d a ih =>
      obtain ⟨hd, hdash, ha⟩ := ha
      refine ⟨hd, fun heq => ?_, ih ha⟩
      obtain ⟨x, w', rfl, hx⟩ := hdash heq
      exact ⟨x, w' ++ b, rfl, hx⟩

theorem Harmless.no_question {w : Text} (h : Harmless w) : '?' ∉ w := by
  induction w with
  | nil => exact List.not_mem_nil
  | cons d w ih => exact List.not_mem_cons_of_ne_of_not_mem h.1.2.2.2.2.symm (ih h.2.2)

theorem harmless_digits {w : Text} (h : ∀ c ∈ w, isAsciiDigit c = true) : Harmless w := by
  induction w with
  | nil => trivial
  | cons d w ih =>
      obtain ⟨hd, hw⟩ := List.forall_mem_cons.mp h
      have hne : ∀ x, isAsciiDigit x = false → d ≠ x := by
        rintro x hx rfl
        cases hd.symm.trans hx
      exact ⟨⟨hne _ (by decide), hne _ (by decide), hne _ (by decide), hne _ (by decide), hne _ (by decide)⟩,
        fun heq => absurd heq (hne _ (by decide)), ih hw⟩

theorem harmless_cons {c : Char} {w : Text} (hc : c ≠ '\'' ∧ c ≠ '"' ∧ c ≠ '$' ∧ c ≠ '/' ∧ c ≠ '?') (hdash : c ≠ '-') (hw : Harmless w) :
    Harmless (c :: w) :=
  ⟨hc, fun heq => absurd heq hdash, hw⟩

theorem harmless_takeWhile (t : Text) : Harmless (t.takeWhile isAsciiDigit) :=
  harmless_digits fun _ hc => List.mem_takeWhile_imp hc

theorem harmless_fraction (t : Text) : Harmless (Postgres.fraction t).1 := by
  unfold Postgres.fraction
  split
  · trivial
  · exact harmless_cons (by decide) (by decide) (harmless_takeWhile _)
  · trivial

theorem harmless_exponent (t : Text) : Harmless (Postgres.exponent t).1 := by
  have he : ∀ {e : Char}, e = 'e' ∨ e = 'E' → (e ≠ '\'' ∧ e ≠ '"' ∧ e ≠ '$' ∧ e ≠ '/' ∧ e ≠ '?') ∧ e ≠ '-' := by
    rintro e (rfl | rfl) <;> decide
  unfold Postgres.exponent
  split
  next e sign d t =>
    split_ifs with hletter hdigit hsign
    · exact harmless_cons (he hletter).1 (he hletter).2 (harmless_takeWhile _)
    · -- a sign stands in front of a digit
      have hdigits : Harmless ((d :: t).takeWhile isAsciiDigit) := harmless_takeWhile _
      rw [List.takeWhile_cons_of_pos hsign.2] at hdigits ⊢
      have hd : d ≠ '-' := by
        rintro rfl
        exact absurd hsign.2 (by decide)
      refine harmless_cons (he hletter).1 (he hletter).2 ⟨?_, fun _ => ⟨d, _, rfl, hd⟩, hdigits⟩
      obtain rfl | rfl := hsign.1 <;> decide
    · trivial
    · trivial
  next e d =>
    split_ifs with h
    · refine harmless_cons (he h.1).1 (he h.1).2 (harmless_digits ?_)
      simpa using h.2
    · trivial
  next => trivial

theorem harmless_number {c : Char} {t : Text} (hc : isAsciiDigit c = true) : Harmless (c :: (Postgres.number t).1) := by
  have hfirst : Harmless [c] := harmless_digits (by simpa using hc)
  exact hfirst.append (((harmless_takeWhile _).append (harmless_fraction _)).append (harmless_exponent _))

theorem harmless_pointNumber (t : Text) : Harmless ('.' :: (Postgres.pointNumber t).1) :=
  harmless_cons (by decide) (by decide) ((harmless_takeWhile _).append (harmless_exponent _))

theorem dollarQuote_extend {u rest : Text} (h : dollarQuote u = none) (hrest : ∀ c ∈ rest.head?, Postgres.isIdentCont c = false) :
    dollarQuote (u ++ rest) = none := by
  have hdollar : ∀ r, rest ≠ '$' :: r := by
    rintro r rfl
    exact absurd (hrest '$' rfl) (by decide)
  cases hquote : dollarQuote (u ++ rest) with
  | none => rfl
  | some run =>
      obtain ⟨name, body, heq, hname, hdigit, -⟩ := dollarQuote_some hquote
      obtain ⟨w, rfl, hw⟩ | ⟨w, rfl, hw⟩ := List.append_eq_append_iff.mp heq
      · -- the name would go on behind the word
        cases w with
        | nil => exact absurd hw (hdollar _)
        | cons x w =>
            subst hw
            have hx : isTag x = true := hname x (by simp)
            have hcont : Postgres.isIdentCont x = false := hrest x rfl
            rw [Postgres.isIdentCont, isTagCont_of_isTag hx] at hcont
            cases hcont
      · cases w with
        | nil => exact absurd hw.symm (hdollar _)
        | cons x w =>
            obtain ⟨rfl, -⟩ := List.cons.inj hw
            rw [dollarQuote_append w hname hdigit] at h
            cases h

theorem placeholder_extend {u rest : Text} (h : placeholder u = none) (hrest : ∀ c ∈ rest.head?, Postgres.isIdentCont c = false) :
    placeholder (u ++ rest) = none := by
  have hdigits : (u ++ rest).takeWhile isAsciiDigit = u.takeWhile isAsciiDigit := by
    refine takeWhile_digit fun c r hc => ?_
    have hcont : Postgres.isIdentCont c = false := hrest c (by rw [hc]; rfl)
    by_contra htag
    rw [Postgres.isIdentCont, isTagCont_of_isTag (by simpa using htag)] at hcont
    cases hcont
  simp only [placeholder, hdigits] at h ⊢
  split at h
  case isTrue h' => rw [if_pos h']
  case isFalse => cases h

/-- An identifier no dollar of which begins anything. -/
theorem loose_word {w rest : Text} (hw : ∀ c ∈ w, Postgres.isIdentCont c = true)
    (hrest : ∀ c ∈ rest.head?, Postgres.isIdentCont c = false)
    (hdollars : ∀ u, '$' :: u <:+ w → dollarQuote u = none ∧ placeholder u = none) : Loose w rest := by
  induction w with
  | nil => trivial
  | cons d w ih =>
      obtain ⟨hd, hw⟩ := List.forall_mem_cons.mp hw
      have hne : ∀ x, Postgres.isIdentCont x = false → d ≠ x := by
        rintro x hx rfl
        cases hd.symm.trans hx
      refine ⟨next_char ⟨hne _ (by decide), hne _ (by decide)⟩ (fun h => absurd h (hne _ (by decide)))
        (fun h => absurd h (hne _ (by decide))) fun h => ?_, ih hw fun u hu => hdollars u (hu.trans (List.suffix_cons d w))⟩
      obtain ⟨hquote, hplaceholder⟩ := hdollars w (by rw [h])
      exact ⟨dollarQuote_extend hquote hrest, placeholder_extend hplaceholder hrest⟩

theorem copiedWhole_word {t : Token} {rest : Text} (hkind : t.kind = .word) (h : copiedWhole t rest = true) (u : Text)
    (hu : '$' :: u <:+ t.raw) : dollarQuote u = none ∧ placeholder u = none := by
  rw [copiedWhole, hkind] at h
  have hsuffix := List.all_eq_true.mp h _ ((List.mem_tails _ _).mpr hu)
  simpa using hsuffix

/-! ### Every token -/

theorem sums_copied_char (a : Text) (c : Char) (hc : c ≠ '?') (ps : List Piece) :
    sums (.copied (a ++ [c]) :: ps) = sums (.copied a :: .char c :: ps) := by
  simp [sums, Piece.written, Piece.order, hc]

theorem pieces_chars {tok : Token} {rest : Text} (h : Loose tok.raw rest) (hpieces : tokenPieces tok = tok.raw.map .char) :
    pieces (tok.raw ++ rest) = tokenPieces tok ++ pieces rest := by
  rw [hpieces, pieces_loose h]

theorem pieces_dollar (t : Text) (hwhole : copiedWhole (Postgres.nextDollar t).1 (Postgres.nextDollar t).2 = true) :
    pieces ('$' :: t) = tokenPieces (Postgres.nextDollar t).1 ++ pieces (Postgres.nextDollar t).2 := by
  unfold Postgres.nextDollar at hwhole ⊢
  cases htag : Postgres.dollarTag t with
  | some result =>
      obtain ⟨name, body⟩ := result
      rw [htag] at hwhole
      obtain ⟨rfl, hname, hdigit⟩ := Postgres.dollarTag_eq_some htag
      have hcont : ∀ c ∈ name, (decide (c ≠ '$')) = true := by
        intro c hc
        have htag : Postgres.isTagCont c = true := List.mem_takeWhile_imp (hname ▸ hc)
        refine decide_eq_true ?_
        rintro rfl
        exact absurd htag (by decide)
      have hall : ∀ c ∈ name, isTag c = true := by
        have hwhole : (name ++ '$' :: (Postgres.throughTag ('$' :: (name ++ ['$'])) body).1).takeWhile (· ≠ '$') |>.all isTag := by
          simpa [copiedWhole] using hwhole
        rw [List.takeWhile_append_of_pos hcont] at hwhole
        simpa using hwhole
      have hquote := dollarQuote_append body hall (by
        cases name with
        | nil => rfl
        | cons c name => simpa [noDigit] using hdigit)
      have hnext : next ('$' :: (name ++ '$' :: body)) = some (.copied ('$' :: (name ++ '$' ::
          (Postgres.throughTag ('$' :: (name ++ ['$'])) body).1)), (Postgres.throughTag ('$' :: (name ++ ['$'])) body).2) := by
        rw [next, hquote, throughTag_eq]
        rfl
      rw [pieces_next hnext]
      rfl
  | none =>
      rw [htag] at hwhole
      dsimp only at hwhole ⊢
      by_cases hdigit : t.head?.any isAsciiDigit = true
      · rw [if_pos hdigit]
        have hquote := dollarQuote_none htag
        have hplaceholder := placeholder_eq hdigit
        obtain ⟨n, hn⟩ : ∃ n, n = (t.takeWhile isAsciiDigit).foldl (fun n c => 10 * n + (c.toNat - '0'.toNat)) 0 := ⟨_, rfl⟩
        have hpieces : tokenPieces ⟨.param, '$' :: t.takeWhile isAsciiDigit⟩ =
            if n < 65536 then [.numbered n] else ('$' :: t.takeWhile isAsciiDigit).map .char := by rw [hn]; rfl
        rw [← hn] at hplaceholder
        rw [hpieces]
        split_ifs at hplaceholder ⊢ with hlarge
        · have hnext : next ('$' :: t) = some (.numbered n, t.dropWhile isAsciiDigit) := by
            rw [next, hquote]
            dsimp only
            rw [hplaceholder]
          rw [pieces_next hnext]
          rfl
        · -- a number that is too large is no placeholder
          have hloose : Loose ('$' :: t.takeWhile isAsciiDigit) (t.dropWhile isAsciiDigit) := by
            refine ⟨?_, (harmless_takeWhile t).loose⟩
            rw [List.takeWhile_append_dropWhile]
            exact next_char (by decide) (fun h => absurd h (by decide)) (fun h => absurd h (by decide))
              fun _ => ⟨hquote, hplaceholder⟩
          have hchars := pieces_loose hloose
          rwa [List.cons_append, List.takeWhile_append_dropWhile] at hchars
      · rw [if_neg hdigit]
        have hloose : Loose ['$'] t := ⟨next_char (by decide) (fun h => absurd h (by decide)) (fun h => absurd h (by decide))
          fun _ => ⟨dollarQuote_none htag, placeholder_none (Bool.eq_false_iff.mpr hdigit)⟩, trivial⟩
        have hchars : pieces ((⟨.symbol, ['$']⟩ : Token).raw ++ t) = _ := pieces_chars hloose rfl
        exact hchars

/-- **A token that is copied whole is read as its pieces.** -/
theorem sums_token (c : Char) (t : Text) (hwhole : copiedWhole (Postgres.next true c t).1 (Postgres.next true c t).2 = true) :
    sums (pieces (c :: t)) = sums (tokenPieces (Postgres.next true c t).1 ++ pieces (Postgres.next true c t).2) := by
  by_cases hdollar : c = '$'
  · subst hdollar
    have hnext : Postgres.next true '$' t = Postgres.nextDollar t := rfl
    rw [hnext] at hwhole ⊢
    rw [pieces_dollar t hwhole]
  have hreads := Postgres.next_reads true c t
  have happend := Postgres.next_append true c t
  generalize Postgres.next true c t = r at hreads happend hwhole
  rw [← happend]
  cases hreads with
  | space h =>
      have hne : ∀ x, Postgres.isSpace x = false → c ≠ x := by
        rintro x hx rfl
        cases h.symm.trans hx
      have hloose : Loose [c] t := ⟨next_char ⟨hne _ (by decide), hne _ (by decide)⟩ (fun hc => absurd hc (hne _ (by decide)))
        (fun hc => absurd hc (hne _ (by decide))) fun hc => absurd hc hdollar, trivial⟩
      rw [pieces_chars hloose rfl]
  | @line t =>
      have hall : ∀ c ∈ t.takeWhile Postgres.nonNewline, Postgres.nonNewline c = true := fun c hc => List.mem_takeWhile_imp hc
      have hcopy := copyLineComment_append (r := t.dropWhile Postgres.nonNewline) hall
      rw [List.takeWhile_append_dropWhile] at hcopy
      have hnext : next ('-' :: '-' :: t) = some (.copied ('-' :: '-' :: (copyLineComment t).1), (copyLineComment t).2) := by
        rw [next]
      rw [happend, pieces_next hnext, hcopy]
      dsimp only at hwhole ⊢
      cases hrest : t.dropWhile Postgres.nonNewline with
      | nil => simp [copyLineComment, tokenPieces, sums]
      | cons x rest =>
          have hx : Postgres.nonNewline x = false := by
            simpa [hrest] using List.head?_dropWhile_not Postgres.nonNewline t
          rw [hrest] at hwhole
          obtain rfl | rfl : x = '\n' ∨ x = '\r' := by simpa [Postgres.nonNewline, or_iff_not_imp_left] using hx
          · have hnothing : copyLineComment ('\n' :: rest) = ([], '\n' :: rest) := by simp [copyLineComment]
            rw [hnothing, List.append_nil]
            rfl
          · -- the carriage return goes with the comment
            have hrest' : rest.head?.all (· == '\n') = true := by simpa [copiedWhole] using hwhole
            have hreturn : copyLineComment ('\r' :: rest) = (['\r'], rest) := by
              cases rest with
              | nil => simp [copyLineComment]
              | cons y rest =>
                  obtain rfl : y = '\n' := by simpa using hrest'
                  simp [copyLineComment]
            have hchar : next ('\r' :: rest) = some (.char '\r', rest) :=
              next_char (by decide) (fun h => absurd h (by decide)) (fun h => absurd h (by decide)) fun h => absurd h (by decide)
            rw [hreturn, pieces_next hchar]
            exact sums_copied_char ('-' :: '-' :: t.takeWhile Postgres.nonNewline) '\r' (by decide) (pieces rest)
  | @comment t =>
      have hnext : next ('/' :: '*' :: t) = some (.copied ('/' :: '*' :: (Postgres.block 1 t).1), (Postgres.block 1 t).2) := by
        rw [next, copyBlockComment_eq]
      rw [happend, pieces_next hnext]
      rfl
  | string =>
      have hnext : next ('\'' :: t) = some (.copied ('\'' :: (Postgres.quoted '\'' t).1), (Postgres.quoted '\'' t).2) := by
        rw [next, copyQuoted_eq]
      rw [happend, pieces_next hnext]
      rfl
  | quotedWord =>
      have hnext : next ('"' :: t) = some (.copied ('"' :: (Postgres.quoted '"' t).1), (Postgres.quoted '"' t).2) := by
        rw [next, copyQuoted_eq]
      rw [happend, pieces_next hnext]
      rfl
  | @escapeString _ t h =>
      have hcopy : copyQuoted '\'' t = Postgres.escaped t := by
        have hsame : copyQuoted '\'' ((Postgres.escaped t).1 ++ (Postgres.escaped t).2) = Postgres.escaped t := by
          simpa [copiedWhole] using hwhole
        rwa [Postgres.escaped_append] at hsame
      have hfirst : next (c :: '\'' :: t) = some (.char c, '\'' :: t) := by
        refine next_char ?_ ?_ ?_ fun hc => absurd hc hdollar
        all_goals obtain rfl | rfl := h <;> simp
      have hnext : next ('\'' :: t) = some (.copied ('\'' :: (Postgres.escaped t).1), (Postgres.escaped t).2) := by
        rw [next, hcopy]
      rw [happend, pieces_next hfirst, pieces_next hnext]
      rfl
  | word h =>
      have hcont : ∀ d ∈ c :: t.takeWhile Postgres.isIdentCont, Postgres.isIdentCont d = true := by
        refine List.forall_mem_cons.mpr ⟨?_, fun d hd => List.mem_takeWhile_imp hd⟩
        simp [Postgres.isIdentCont, Postgres.isTagCont, h]
      have hends : ∀ d ∈ (t.dropWhile Postgres.isIdentCont).head?, Postgres.isIdentCont d = false := by
        intro d hd
        simpa [Option.mem_def.mp hd] using List.head?_dropWhile_not Postgres.isIdentCont t
      rw [pieces_chars (loose_word hcont hends (copiedWhole_word rfl hwhole)) rfl]
  | dollarString h => exact absurd rfl hdollar
  | param => exact absurd rfl hdollar
  | number h => rw [pieces_chars (harmless_number h).loose rfl]
  | pointNumber => rw [pieces_chars (harmless_pointNumber t).loose rfl]
  | symbol h =>
      have hloose : Loose [c] t := ⟨next_char h.quote h.dash h.slash fun hc => absurd hc hdollar, trivial⟩
      rw [pieces_chars hloose rfl]

theorem sums_pieces (t : Text) (h : scanned (lex true t) = true) : sums (pieces t) = sums ((lex true t).flatMap tokenPieces) := by
  induction t using Postgres.lex_induction true with
  | nil => rfl
  | cons c t ih =>
      rw [Postgres.lex_cons, scanned, Bool.and_eq_true, Postgres.lex_raw] at h
      rw [Postgres.lex_cons, List.flatMap_cons, sums_token c t h.1]
      exact sums_append rfl (ih h.2)

/-! ## What a token is for the code, and for PostgreSQL -/

/-- What becomes of a token. -/
def tokenText (t : Token) : Text :=
  match parameter t with
  | some n => if n < 65536 then ['?'] else t.raw
  | none => t.raw

def tokenOrder (t : Token) : List ℕ :=
  match parameter t with
  | some n => if n < 65536 ∧ 1 ≤ n then [n - 1] else []
  | none => []

theorem written_tokenPieces (t : Token) : (tokenPieces t).flatMap Piece.written = tokenText t := by
  have hchars : (t.raw.map Piece.char).flatMap Piece.written = t.raw := by
    induction t.raw with
    | nil => rfl
    | cons c w ih => exact congrArg (c :: ·) ih
  obtain ⟨kind, raw⟩ := t
  cases kind with
  | param =>
      rw [tokenPieces, tokenText, parameter, if_pos rfl]
      dsimp only
      split_ifs
      · rfl
      · exact hchars
  | string | quotedWord | comment | dollarString => exact List.append_nil _
  | escapeString =>
      cases raw with
      | nil => rfl
      | cons c w => exact congrArg (c :: ·) (List.append_nil w)
  | _ => exact hchars

theorem order_tokenPieces (t : Token) : (tokenPieces t).flatMap Piece.order = tokenOrder t := by
  have hchars : (t.raw.map Piece.char).flatMap Piece.order = [] := by
    induction t.raw with
    | nil => rfl
    | cons c w ih => exact ih
  obtain ⟨kind, raw⟩ := t
  cases kind with
  | param =>
      rw [tokenPieces, tokenOrder, parameter, if_pos rfl]
      dsimp only
      generalize raw.tail.foldl (fun n c => 10 * n + (c.toNat - '0'.toNat)) 0 = n
      by_cases hfits : n < 65536
      · rw [if_pos hfits]
        by_cases hn : 1 ≤ n
        · rw [if_pos ⟨hfits, hn⟩]
          simp [Piece.order, hn]
        · rw [if_neg fun h => hn h.2]
          simp [Piece.order, hn]
      · rw [if_neg hfits, if_neg fun h => hfits h.1]
        exact hchars
  | string | quotedWord | comment | dollarString => rfl
  | escapeString => cases raw <;> rfl
  | _ => exact hchars

/-- The question marks of a token that are no placeholders: it is one itself, or it is `$0`. -/
def strayToken (t : Token) : ℕ := if t.kind = .symbol ∧ t.raw = ['?'] ∨ parameter t = some 0 then 1 else 0

theorem count_chars {w : Text} (h : '?' ∉ w) :
    (w.map Piece.char).count (.char '?') + (w.map Piece.char).count (.numbered 0) = 0 := by
  have hnot : Piece.char '?' ∉ w.map Piece.char := by simpa using h
  have hnot' : Piece.numbered 0 ∉ w.map Piece.char := by simp
  rw [List.count_eq_zero_of_not_mem hnot, List.count_eq_zero_of_not_mem hnot']

theorem strays_token (c : Char) (t : Text) :
    (tokenPieces (Postgres.next true c t).1).count (.char '?') + (tokenPieces (Postgres.next true c t).1).count (.numbered 0) =
      strayToken (Postgres.next true c t).1 := by
  have hreads := Postgres.next_reads true c t
  generalize Postgres.next true c t = r at hreads
  cases hreads with
  | space h =>
      have hc : '?' ≠ c := by
        rintro rfl
        exact absurd h (by decide)
      exact count_chars (by simpa using hc)
  | word h =>
      refine count_chars fun hmem => ?_
      obtain rfl | hmem := List.mem_cons.mp hmem
      · exact absurd h (by decide)
      · exact absurd (List.mem_takeWhile_imp hmem) (by decide)
  | number h => exact count_chars (harmless_number h).no_question
  | pointNumber => exact count_chars (harmless_pointNumber t).no_question
  | line | comment | string | quotedWord | dollarString => rfl
  | escapeString h =>
      have hc : c ≠ '?' := by
        rintro rfl
        exact absurd h (by decide)
      simp [tokenPieces, strayToken, parameter, hc]
  | @param t =>
      have hnot : '?' ∉ '$' :: t.takeWhile isAsciiDigit :=
        List.not_mem_cons_of_ne_of_not_mem (by decide) (harmless_takeWhile t).no_question
      rw [tokenPieces, strayToken, parameter, if_pos rfl]
      dsimp only
      generalize ('$' :: t.takeWhile isAsciiDigit).tail.foldl (fun n c => 10 * n + (c.toNat - '0'.toNat)) 0 = n
      by_cases hfits : n < 65536
      · rw [if_pos hfits]
        by_cases hn : n = 0
        · simp [hn]
        · simp [hn]
      · have hn : n ≠ 0 := by omega
        rw [if_neg hfits, count_chars hnot]
        simp [hn]
  | symbol h =>
      by_cases hc : c = '?'
      · subst hc
        rfl
      · have hnot : '?' ∉ [c] := by simpa using Ne.symm hc
        show ([c].map Piece.char).count (.char '?') + ([c].map Piece.char).count (.numbered 0) = _
        rw [count_chars hnot]
        simp [strayToken, parameter, hc]

theorem strays_tokens (t : Text) : ((lex true t).flatMap tokenPieces).count (.char '?') +
    ((lex true t).flatMap tokenPieces).count (.numbered 0) = ((lex true t).map strayToken).sum := by
  induction t using Postgres.lex_induction true with
  | nil => rfl
  | cons c t ih =>
      have hfirst := strays_token c t
      rw [Postgres.lex_cons, List.flatMap_cons, List.map_cons, List.sum_cons, List.count_append, List.count_append]
      omega

/-- The text, the values and the question marks of a text whose tokens are copied whole. -/
theorem toJdbc_tokens {sql : Text} (h : scanned (lex true sql) = true) :
    (toJdbc sql).sql = (lex true sql).flatMap tokenText ∧ (toJdbc sql).order = (lex true sql).flatMap tokenOrder ∧
      marks (toJdbc sql).sql = (toJdbc sql).order.length + ((lex true sql).map strayToken).sum := by
  have hsums := sums_pieces sql h
  simp only [sums, Prod.mk.injEq, List.flatMap_assoc, written_tokenPieces, order_tokenPieces, strays_tokens] at hsums
  obtain ⟨hsql, horder, -⟩ := toJdbc_pieces sql
  obtain ⟨hw, ho, hk⟩ := hsums
  exact ⟨hsql.trans hw, horder.trans ho, (marks_toJdbc sql).trans (congrArg ((toJdbc sql).order.length + ·) hk)⟩

/-! ## Where the two agree -/

/-- A number that is too large is seen in the text. -/
theorem fits_of_text {tokens : List Token} (hzero : ∀ t ∈ tokens, parameter t ≠ some 0)
    (hdollar : ∀ t ∈ tokens, t.kind = .param → t.raw.head? = some '$')
    (h : tokens.flatMap tokenText = tokens.flatMap rewriteToken) : ∀ t ∈ tokens, ∀ n ∈ parameter t, n < 65536 := by
  induction tokens with
  | nil => nofun
  | cons t ts ih =>
      obtain ⟨ht, hts⟩ := List.forall_mem_cons.mp hzero
      obtain ⟨htd, htsd⟩ := List.forall_mem_cons.mp hdollar
      rw [List.flatMap_cons, List.flatMap_cons] at h
      by_cases hsame : ∀ n ∈ parameter t, n < 65536
      · have htext : tokenText t = rewriteToken t := by
          rw [tokenText, rewriteToken]
          cases hp : parameter t with
          | none => rfl
          | some n =>
              have hn : 1 ≤ n := Nat.pos_of_ne_zero fun hn => ht (by rw [hp, hn])
              dsimp only
              rw [if_pos (hsame n hp), if_pos hn]
        rw [htext] at h
        exact List.forall_mem_cons.mpr ⟨hsame, ih hts htsd (List.append_cancel_left h)⟩
      · simp only [not_forall] at hsame
        obtain ⟨n, hp, hlarge⟩ := hsame
        have hkind : t.kind = .param := by
          by_contra hkind
          rw [parameter, if_neg hkind] at hp
          cases hp
        have hn : 1 ≤ n := by omega
        rw [tokenText, rewriteToken, Option.mem_def.mp hp] at h
        dsimp only at h
        rw [if_neg hlarge, if_pos hn] at h
        -- a dollar on one side, a question mark on the other
        obtain ⟨w, hw⟩ := List.head?_eq_some_iff.mp (htd hkind)
        rw [hw, List.cons_append, List.singleton_append] at h
        exact absurd (List.cons.inj h).1 (by decide)

theorem param_dollar {t : Text} : ∀ tok ∈ lex true t, tok.kind = .param → tok.raw.head? = some '$' := by
  refine Postgres.lex_forall true (fun c t hkind => ?_) t
  have hreads := Postgres.next_reads true c t
  generalize Postgres.next true c t = r at hreads hkind
  cases hreads with
  | param => rfl
  | _ => cases hkind

theorem plain_iff {tokens : List Token} : plain tokens = true ↔
    ∀ t ∈ tokens, strayToken t = 0 ∧ ∀ n ∈ parameter t, n < 65536 := by
  rw [plain, List.all_eq_true]
  refine forall₂_congr fun t _ => ?_
  rw [strayToken]
  cases hp : parameter t with
  | none => simp [← not_and_or, not_and]
  | some n => simp [Nat.one_le_iff_ne_zero]; tauto

/-- **Where the tokens are copied whole, what is written is PostgreSQL's text with question marks for its parameters, and
the driver asks for the values, exactly when nothing but the parameters becomes a question mark.** -/
theorem rewrites_iff {sql : Text} (h : scanned (lex true sql) = true) : Rewrites sql ↔ plain (lex true sql) = true := by
  obtain ⟨htext, horder, hmarks⟩ := toJdbc_tokens h
  rw [plain_iff]
  constructor
  · intro hrewrites
    have hsum : ((lex true sql).map strayToken).sum = 0 := by
      have hcounted := hrewrites.counted
      omega
    have hstray : ∀ t ∈ lex true sql, strayToken t = 0 :=
      fun t ht => List.sum_eq_zero_iff_forall_eq_nat.mp hsum _ (List.mem_map_of_mem ht)
    have hzero : ∀ t ∈ lex true sql, parameter t ≠ some 0 := by
      intro t ht hp
      have hone := hstray t ht
      rw [strayToken, if_pos (.inr hp)] at hone
      cases hone
    have hfits := fits_of_text hzero param_dollar (htext.symm.trans hrewrites.text)
    exact fun t ht => ⟨hstray t ht, hfits t ht⟩
  · intro hplain
    have hsame : ∀ t ∈ lex true sql, tokenText t = rewriteToken t ∧
        tokenOrder t = match parameter t with
          | some n => if 1 ≤ n then [n - 1] else []
          | none => [] := by
      intro t ht
      obtain ⟨hstray, hfits⟩ := hplain t ht
      rw [tokenText, rewriteToken, tokenOrder]
      cases hp : parameter t with
      | none => exact ⟨rfl, rfl⟩
      | some n =>
          have hn : 1 ≤ n := by
            refine Nat.pos_of_ne_zero fun hn => ?_
            rw [strayToken, if_pos (.inr (by rw [hp, hn]))] at hstray
            cases hstray
          have hlt := hfits n hp
          dsimp only
          rw [if_pos hlt, if_pos hn, if_pos ⟨hlt, hn⟩, if_pos hn]
          exact ⟨rfl, rfl⟩
    have hparameters : (toJdbc sql).order = parameters (lex true sql) :=
      horder.trans (List.flatMap_congr fun t ht => (hsame t ht).2)
    refine ⟨htext.trans (List.flatMap_congr fun t ht => (hsame t ht).1), hparameters, ?_, ?_⟩
    · obtain ⟨-, hpieces, hhighest⟩ := toJdbc_pieces sql
      rw [hhighest, ← hpieces, hparameters]
    · have hsum : ((lex true sql).map strayToken).sum = 0 := by
        refine List.sum_eq_zero_iff_forall_eq_nat.mpr fun n hn => ?_
        obtain ⟨t, ht, rfl⟩ := List.mem_map.mp hn
        exact (hplain t ht).1
      omega

/-- A text with strings, a name with a dollar in it, a dollar quote and a repeated parameter. -/
theorem rewrites_iff_mixed : Rewrites "select 'it''s $1', a$b, $x$ $2 $x$, $2, $1, $2 -- $3".toList :=
  (rewrites_iff (by decide +kernel)).mpr (by decide +kernel)

/-- A parameter inside a string behind an escaped quote. -/
theorem not_rewrites : ¬ ∀ sql : Text, Rewrites sql := by
  intro h
  have htext := (h "select E'\\' $1'".toList).text
  revert htext
  decide +kernel

end Havuz.Jdbc
