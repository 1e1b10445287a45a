import Havuz.Jdbc.Rewrite
import Mathlib.Data.List.TakeWhile

/-!
# The placeholders of a rewritten text

What is rewritten is read again by the driver. A text is taken piece by piece, and a piece that was written is the
same piece again, but for the placeholders, which are question marks now (`next_again`). So the driver finds the
placeholders that were rewritten, and those that were there before (`marks_toJdbc`).
-/

namespace Havuz.Jdbc

/-- A piece of a text. -/
inductive Piece where
  /-- A string, a quoted name, a comment or a dollar quote. -/
  | copied (text : Text)
  /-- A placeholder `$n`. -/
  | numbered (number : ℕ)
  | char (c : Char)
deriving DecidableEq, Repr

namespace Piece

/-- What `to_jdbc` writes for it. -/
def written : Piece → Text
  | copied text => text
  | numbered _ => ['?']
  | char c => [c]

/-- It as it is read again. -/
def again : Piece → Piece
  | numbered _ => char '?'
  | piece => piece

/-- Which parameter it refers to, counted from zero. -/
def order : Piece → List ℕ
  | numbered number => if 1 ≤ number then [number - 1] else []
  | _ => []

end Piece

/-- The first piece of a text, and what is left. -/
def next : Text → Option (Piece × Text)
  | [] => none
  | '\'' :: t => some (.copied ('\'' :: (copyQuoted '\'' t).1), (copyQuoted '\'' t).2)
  | '"' :: t => some (.copied ('"' :: (copyQuoted '"' t).1), (copyQuoted '"' t).2)
  | '-' :: '-' :: t => some (.copied ('-' :: '-' :: (copyLineComment t).1), (copyLineComment t).2)
  | '/' :: '*' :: t => some (.copied ('/' :: '*' :: (copyBlockComment 1 t).1), (copyBlockComment 1 t).2)
  | '$' :: t =>
      match dollarQuote t with
      | some run => some (.copied ('$' :: run.1), run.2)
      | none =>
          match placeholder t with
          | some (number, rest) => some (.numbered number, rest)
          | none => some (.char '$', t)
  | c :: t => some (.char c, t)

def piecesLoop : ℕ → Text → List Piece
  | 0, _ => []
  | fuel + 1, t =>
      match next t with
      | none => []
      | some (piece, rest) => piece :: piecesLoop fuel rest

/-- The pieces of a text. -/
def pieces (t : Text) : List Piece := piecesLoop t.length t

/-- The placeholders a driver finds in a text. -/
def marks (t : Text) : ℕ := (pieces t).count (.char '?')

/-- The question marks of a text that are no rewritten placeholders: those it had before, and `$0`. -/
def strays (t : Text) : ℕ := (pieces t).count (.char '?') + (pieces t).count (.numbered 0)

theorem toJdbcLoop_next (fuel : ℕ) (t : Text) (out : Rewritten) :
    toJdbcLoop (fuel + 1) t out = match next t with
      | none => out
      | some (piece, rest) =>
          toJdbcLoop fuel rest
            ⟨out.sql ++ piece.written, match piece with
              | .numbered number => max out.highest number
              | _ => out.highest, out.order ++ piece.order⟩ := by
  fun_cases next t with
  | case1 => rfl
  | case2 t => simp [toJdbcLoop, Piece.written, Piece.order]
  | case3 t => simp [toJdbcLoop, Piece.written, Piece.order]
  | case4 t => simp [toJdbcLoop, Piece.written, Piece.order]
  | case5 t => simp [toJdbcLoop, Piece.written, Piece.order]
  | case6 t run hrun => simp [toJdbcLoop, Piece.written, Piece.order, hrun]
  | case7 t hrun number rest hplaceholder =>
      by_cases hnumber : 1 ≤ number
      · simp [toJdbcLoop, Piece.written, Piece.order, hrun, hplaceholder, hnumber]
      · obtain rfl : number = 0 := by omega
        simp [toJdbcLoop, Piece.written, Piece.order, hrun, hplaceholder]
  | case8 t hrun hplaceholder => simp [toJdbcLoop, Piece.written, Piece.order, hrun, hplaceholder]
  | case9 c t => simp_all [toJdbcLoop, Piece.written, Piece.order]

/-! ## Pieces that are read again -/

theorem copyQuoted_head (d : Char) (t r : Text) : (copyQuoted d t).2 ≠ d :: r := by
  fun_induction copyQuoted d t with
  | case1 => simp
  | case2 => simp
  | case3 t _ ih => exact ih
  | case4 e t h => simpa using fun h' => absurd h' h
  | case5 c e t h rest ih => exact ih

theorem copyQuoted_cons (d e : Char) (t : Text) : ∃ r, (copyQuoted d (e :: t)).1 = e :: r := by
  cases t with
  | nil => exact ⟨[], rfl⟩
  | cons f t =>
      rw [copyQuoted]
      split
      · split
        · exact ⟨_, rfl⟩
        · exact ⟨_, rfl⟩
      · exact ⟨_, rfl⟩

/-- A quote that is closed is closed at the same place, and one that is not has nothing behind it. -/
theorem copyQuoted_again (d : Char) (t x : Text) (hnil : (copyQuoted d t).2 = [] → x = []) (hhead : ∀ r, x ≠ d :: r) :
    copyQuoted d ((copyQuoted d t).1 ++ x) = ((copyQuoted d t).1, x) := by
  fun_induction copyQuoted d t with
  | case1 =>
      rw [hnil rfl]
      rfl
  | case2 c =>
      rw [hnil rfl]
      rfl
  | case3 t rest ih =>
      have hagain := ih hnil
      simp only [List.cons_append, copyQuoted, if_true, hagain, rest]
  | case4 e t h =>
      cases x with
      | nil => rfl
      | cons f x =>
          have hf : f ≠ d := fun hf => hhead x (by rw [hf])
          simp [copyQuoted, hf]
  | case5 c e t h rest ih =>
      have hagain := ih hnil
      obtain ⟨r, hr⟩ := copyQuoted_cons d e t
      simp only [rest, hr, List.cons_append] at hagain ⊢
      rw [copyQuoted, if_neg h, hagain]

/-- A comment goes on to the end of its line. -/
theorem copyLineComment_again (t x : Text) (hhead : ∀ c r, x = c :: r → c = '\n') :
    copyLineComment ((copyLineComment t).1 ++ x) = ((copyLineComment t).1, x) := by
  have hall : ∀ c ∈ (copyLineComment t).1, (decide (c ≠ '\n')) = true := by
    intro c hc
    exact List.mem_takeWhile_imp (p := fun c => decide (c ≠ '\n')) hc
  have hx : x.takeWhile (· ≠ '\n') = [] ∧ x.dropWhile (· ≠ '\n') = x := by
    cases x with
    | nil => exact ⟨rfl, rfl⟩
    | cons c r =>
        obtain rfl := hhead c r rfl
        exact ⟨rfl, rfl⟩
  rw [copyLineComment, List.takeWhile_append_of_pos hall, List.dropWhile_append_of_pos hall, hx.1, hx.2, List.append_nil]

theorem copyBlockComment_cons (depth : ℕ) (e : Char) (t : Text) :
    ∃ r, (copyBlockComment (depth + 1) (e :: t)).1 = e :: r := by
  cases t with
  | nil => exact ⟨[], rfl⟩
  | cons f t =>
      rw [copyBlockComment]
      split
      · exact ⟨_, rfl⟩
      · split
        · exact ⟨_, rfl⟩
        · exact ⟨_, rfl⟩

/-- A comment is closed at the same place, at the same depth. -/
theorem copyBlockComment_again (depth : ℕ) (t x : Text) (hnil : (copyBlockComment depth t).2 = [] → x = [] ∨ depth = 0) :
    copyBlockComment depth ((copyBlockComment depth t).1 ++ x) = ((copyBlockComment depth t).1, x) := by
  fun_induction copyBlockComment depth t with
  | case1 t => simp [copyBlockComment]
  | case2 depth =>
      obtain rfl : x = [] := by simpa using hnil rfl
      rfl
  | case3 depth c =>
      obtain rfl : x = [] := by simpa using hnil rfl
      rfl
  | case4 depth c d t h rest ih =>
      have hagain := ih fun h => .inl (by simpa using hnil h)
      obtain ⟨rfl, rfl⟩ := h
      simp only [rest, List.cons_append, copyBlockComment, hagain]
      simp
  | case5 depth c d t h h' rest ih =>
      have hagain := ih fun h => .inl (by simpa using hnil h)
      obtain ⟨rfl, rfl⟩ := h'
      simp only [rest, List.cons_append, copyBlockComment, hagain]
      simp
  | case6 depth c d t h h' rest ih =>
      have hagain := ih fun h => .inl (by simpa using hnil h)
      obtain ⟨r, hr⟩ := copyBlockComment_cons depth d t
      simp only [rest, hr, List.cons_append] at hagain ⊢
      rw [copyBlockComment, if_neg h, if_neg h', hagain]

/-- A closed dollar quote ends in its tag. -/
theorem throughTag_tag (tag t : Text) :
    (∃ front, (throughTag tag t).1 = front ++ tag ∧ t = front ++ tag ++ (throughTag tag t).2) ∨
      (throughTag tag t).1 = t ∧ (throughTag tag t).2 = [] := by
  induction t with
  | nil => exact .inr ⟨rfl, rfl⟩
  | cons c t ih =>
      rw [throughTag]
      split
      case isTrue h =>
        refine .inl ⟨[], rfl, ?_⟩
        obtain ⟨rest, hrest⟩ := List.isPrefixOf_iff_prefix.mp h
        rw [← hrest, List.drop_left]
        rfl
      case isFalse =>
        obtain ⟨front, hfront, ht⟩ | ⟨hfront, ht⟩ := ih
        · exact .inl ⟨c :: front, congrArg (c :: ·) hfront, congrArg (c :: ·) ht⟩
        · exact .inr ⟨congrArg (c :: ·) hfront, ht⟩

theorem throughTag_again (tag t x : Text) (htag : tag ≠ []) (hnil : (throughTag tag t).2 = [] → x = []) :
    throughTag tag ((throughTag tag t).1 ++ x) = ((throughTag tag t).1, x) := by
  induction t with
  | nil =>
      rw [hnil rfl]
      rfl
  | cons c t ih =>
      by_cases h : tag.isPrefixOf (c :: t) = true
      · rw [throughTag, if_pos h]
        cases tag with
        | nil => exact absurd rfl htag
        | cons f tag =>
            have hstarts : (f :: tag).isPrefixOf (f :: (tag ++ x)) = true :=
              List.isPrefixOf_iff_prefix.mpr (List.prefix_append (f :: tag) x)
            rw [List.cons_append, throughTag, if_pos hstarts]
            simp
      · rw [throughTag, if_neg h] at hnil ⊢
        have hagain := ih hnil
        have hnot : ¬ tag.isPrefixOf (c :: ((throughTag tag t).1 ++ x)) = true := by
          intro hstarts
          apply h
          rw [List.isPrefixOf_iff_prefix] at hstarts ⊢
          obtain ⟨front, hfront, ht⟩ | ⟨hfront, ht⟩ := throughTag_tag tag t
          · have hshort : tag <+: c :: (front ++ tag) := by
              apply List.prefix_of_prefix_length_le hstarts
              · rw [hfront]
                exact List.prefix_append (c :: (front ++ tag)) x
              · simp
                omega
            rw [ht]
            exact hshort.trans (List.prefix_append (c :: (front ++ tag)) _)
          · rw [hfront, hnil ht, List.append_nil] at hstarts
            exact hstarts
        simp only [List.cons_append]
        rw [throughTag, if_neg hnot, hagain]

/-- What a tag is made of. -/
def isTag (c : Char) : Bool := isAsciiAlphanumeric c || c == '_'

/-- No digit begins it. -/
def noDigit (name : Text) : Bool := !(name.head?.map isAsciiDigit).getD false

theorem takeWhile_tag {name rest : Text} (hname : ∀ c ∈ name, isTag c = true)
    (hrest : ∀ c r, rest = c :: r → isTag c = false) :
    (name ++ rest).takeWhile isTag = name ∧ (name ++ rest).dropWhile isTag = rest := by
  rw [List.takeWhile_append_of_pos hname, List.dropWhile_append_of_pos hname]
  cases rest with
  | nil => simp
  | cons c r => simp [hrest c r rfl]

theorem dollarQuote_eq (t : Text) : dollarQuote t =
    if noDigit (t.takeWhile isTag) then
      match t.dropWhile isTag with
      | '$' :: body =>
          let rest := throughTag ('$' :: t.takeWhile isTag ++ ['$']) body
          some (t.takeWhile isTag ++ '$' :: rest.1, rest.2)
      | _ => none
    else none := by
  have hdrop : t.drop (t.takeWhile isTag).length = t.dropWhile isTag := by
    conv => lhs; arg 2; rw [← List.takeWhile_append_dropWhile (p := isTag) (l := t)]
    exact List.drop_left
  have hisTag : (fun c => isAsciiAlphanumeric c || c == '_') = isTag := rfl
  simp only [dollarQuote, noDigit, hisTag, hdrop]
  by_cases h : ((t.takeWhile isTag).head?.map isAsciiDigit).getD false = true
  · simp [h]
  · simp only [h]
    rfl

theorem dollarQuote_some {t : Text} {run : Text × Text} (h : dollarQuote t = some run) :
    ∃ name body, t = name ++ '$' :: body ∧ (∀ c ∈ name, isTag c = true) ∧ noDigit name = true ∧
      run = (name ++ '$' :: (throughTag ('$' :: name ++ ['$']) body).1, (throughTag ('$' :: name ++ ['$']) body).2) := by
  rw [dollarQuote_eq] at h
  split at h
  case isTrue hdigit =>
    split at h
    case h_1 body hbody =>
      cases h
      refine ⟨t.takeWhile isTag, body, ?_, fun c hc => List.mem_takeWhile_imp hc, hdigit, rfl⟩
      rw [← hbody, List.takeWhile_append_dropWhile]
    case h_2 => cases h
  case isFalse => cases h

theorem dollarQuote_append {name : Text} (body : Text) (hname : ∀ c ∈ name, isTag c = true) (hdigit : noDigit name = true) :
    dollarQuote (name ++ '$' :: body) =
      some (name ++ '$' :: (throughTag ('$' :: name ++ ['$']) body).1, (throughTag ('$' :: name ++ ['$']) body).2) := by
  have hstop : ∀ c r, '$' :: body = c :: r → isTag c = false := by
    rintro c r ⟨⟩
    decide
  obtain ⟨htake, hdrop⟩ := takeWhile_tag hname hstop
  rw [dollarQuote_eq, htake, hdrop, if_pos hdigit]
  rfl

theorem dollarQuote_again {t x : Text} {run : Text × Text} (hrun : dollarQuote t = some run)
    (hnil : run.2 = [] → x = []) : dollarQuote (run.1 ++ x) = some (run.1, x) := by
  obtain ⟨name, body, -, hname, hdigit, rfl⟩ := dollarQuote_some hrun
  have hagain := throughTag_again _ body x (by simp) hnil
  have hquote := dollarQuote_append ((throughTag ('$' :: name ++ ['$']) body).1 ++ x) hname hdigit
  rw [hagain] at hquote
  simpa using hquote

/-! ## The text that is written -/

/-- What a text may have become: it goes on with the same character, and the same name, or with a placeholder. -/
structure Follows (rest x : Text) : Prop where
  nil : rest = [] → x = []
  head : ∀ c r, x = c :: r → (∃ r', rest = c :: r') ∨ c = '?' ∧ ∃ r', rest = '$' :: r'
  name : ∃ x', x = rest.takeWhile isTag ++ x' ∧ ∀ c r, x' = c :: r → isTag c = false ∧
    ((∃ r', rest.dropWhile isTag = c :: r') ∨ c = '?')

theorem Follows.ne {rest x : Text} (h : Follows rest x) {c : Char} (hc : c ≠ '?') (hrest : ∀ r, rest ≠ c :: r) :
    ∀ r, x ≠ c :: r := by
  rintro r rfl
  obtain ⟨r', hr'⟩ | ⟨hmark, -⟩ := h.head c r rfl
  · exact hrest r' hr'
  · exact hc hmark

theorem dropWhile_tag {t : Text} {c : Char} {r : Text} (h : t.dropWhile isTag = c :: r) : isTag c = false := by
  have hhead := List.head?_dropWhile_not isTag t
  simpa [h] using hhead

/-- A dollar that begins no quote begins none again. -/
theorem Follows.dollarQuote_none {t x : Text} (h : Follows t x) (hnone : dollarQuote t = none) :
    dollarQuote x = none := by
  obtain ⟨x', hx, hhead⟩ := h.name
  have hname : ∀ c ∈ t.takeWhile isTag, isTag c = true := fun c hc => List.mem_takeWhile_imp hc
  obtain ⟨htake, hdropx⟩ := takeWhile_tag hname fun c r hc => (hhead c r hc).1
  rw [dollarQuote_eq] at hnone ⊢
  rw [hx, htake, hdropx]
  split
  case isTrue hdigit =>
    rw [if_pos hdigit] at hnone
    split
    case h_1 body =>
      obtain ⟨-, ⟨r', hr'⟩ | hmark⟩ := hhead '$' body rfl
      · rw [hr'] at hnone
        cases hnone
      · cases hmark
    case h_2 => rfl
  case isFalse => rfl

theorem takeWhile_digit {name rest : Text} (hrest : ∀ c r, rest = c :: r → isTag c = false) :
    (name ++ rest).takeWhile isAsciiDigit = name.takeWhile isAsciiDigit := by
  induction name with
  | nil =>
      cases rest with
      | nil => rfl
      | cons c r =>
          have htag : (isAsciiAlphanumeric c || c == '_') = false := hrest c r rfl
          have hdigit : isAsciiDigit c = false := by
            simp only [isAsciiAlphanumeric, Bool.or_eq_false_iff] at htag
            exact htag.1.2
          simp [hdigit]
  | cons c name ih => simp only [List.cons_append, List.takeWhile_cons, ih]

/-- A dollar that begins no placeholder begins none again. -/
theorem Follows.placeholder_none {t x : Text} (h : Follows t x) (hnone : placeholder t = none) :
    placeholder x = none := by
  obtain ⟨x', hx, hhead⟩ := h.name
  have hdigits : x.takeWhile isAsciiDigit = t.takeWhile isAsciiDigit := by
    calc x.takeWhile isAsciiDigit
        = (t.takeWhile isTag ++ x').takeWhile isAsciiDigit := by rw [← hx]
      _ = (t.takeWhile isTag).takeWhile isAsciiDigit := takeWhile_digit fun c r hc => (hhead c r hc).1
      _ = (t.takeWhile isTag ++ t.dropWhile isTag).takeWhile isAsciiDigit :=
          (takeWhile_digit fun c r hc => dropWhile_tag hc).symm
      _ = t.takeWhile isAsciiDigit := by rw [List.takeWhile_append_dropWhile]
  simp only [placeholder, hdigits] at hnone ⊢
  split at hnone
  case isTrue h' => rw [if_pos h']
  case isFalse => cases hnone

/-- What was written is the same piece again. -/
theorem next_again {t rest x : Text} {piece : Piece} (h : next t = some (piece, rest)) (hx : Follows rest x) :
    next (piece.written ++ x) = some (piece.again, x) := by
  revert h
  fun_cases next t with
  | case1 => rintro ⟨⟩
  | case2 t =>
      rintro ⟨⟩
      have hagain := copyQuoted_again '\'' t x hx.nil (hx.ne (by decide) (copyQuoted_head '\'' t))
      simp [Piece.written, Piece.again, next, hagain]
  | case3 t =>
      rintro ⟨⟩
      have hagain := copyQuoted_again '"' t x hx.nil (hx.ne (by decide) (copyQuoted_head '"' t))
      simp [Piece.written, Piece.again, next, hagain]
  | case4 t =>
      rintro ⟨⟩
      have hline : ∀ c r, x = c :: r → c = '\n' := by
        intro c r hc
        have hend : ∀ c r, (copyLineComment t).2 = c :: r → c = '\n' := by
          intro c r hc
          have hhead := List.head?_dropWhile_not (fun c => decide (c ≠ '\n')) t
          change t.dropWhile (fun c => decide (c ≠ '\n')) = c :: r at hc
          rw [hc] at hhead
          simpa using hhead
        obtain ⟨r', hr'⟩ | ⟨-, r', hr'⟩ := hx.head c r hc
        · exact hend c r' hr'
        · exact absurd (hend _ r' hr') (by decide)
      have hagain := copyLineComment_again t x hline
      simp [Piece.written, Piece.again, next, hagain]
  | case5 t =>
      rintro ⟨⟩
      have hagain := copyBlockComment_again 1 t x fun h => .inl (hx.nil h)
      simp [Piece.written, Piece.again, next, hagain]
  | case6 t run hrun =>
      rintro ⟨⟩
      have hagain := dollarQuote_again hrun hx.nil
      simp [Piece.written, Piece.again, next, hagain]
  | case7 t hrun number rest hplaceholder =>
      rintro ⟨⟩
      rfl
  | case8 t hrun hplaceholder =>
      rintro ⟨⟩
      simp [Piece.written, Piece.again, next, hx.dollarQuote_none hrun, hx.placeholder_none hplaceholder]
  | case9 c t hquote hdouble hdash hcomment hdollar =>
      rintro ⟨⟩
      -- two characters are looked at together where a comment may begin
      have hdashes : c = '-' → ∀ r, x ≠ '-' :: r := fun hc => hx.ne (by decide) fun r hr => hdash r hc hr
      have hstar : c = '/' → ∀ r, x ≠ '*' :: r := fun hc => hx.ne (by decide) fun r hr => hcomment r hc hr
      change next (c :: x) = some (.char c, x)
      rw [next]
      · exact fun hc => hquote hc
      · exact fun hc => hdouble hc
      · exact fun r hc hr => hdashes hc r hr
      · exact fun r hc hr => hstar hc r hr
      · exact fun hc => hdollar hc

/-! ## The whole text -/

theorem copyQuoted_length (d : Char) (t : Text) : (copyQuoted d t).2.length ≤ t.length := by
  fun_induction copyQuoted d t with
  | case1 => simp
  | case2 => simp
  | case3 t rest ih =>
      simp only [rest, List.length_cons] at ih ⊢
      omega
  | case4 => simp
  | case5 c e t h rest ih =>
      simp only [rest, List.length_cons] at ih ⊢
      omega

theorem copyBlockComment_length (depth : ℕ) (t : Text) : (copyBlockComment depth t).2.length ≤ t.length := by
  fun_induction copyBlockComment depth t with
  | case1 => simp
  | case2 => simp
  | case3 => simp
  | case4 depth c d t h rest ih =>
      simp only [rest, List.length_cons] at ih ⊢
      omega
  | case5 depth c d t h h' rest ih =>
      simp only [rest, List.length_cons] at ih ⊢
      omega
  | case6 depth c d t h h' rest ih =>
      simp only [rest, List.length_cons] at ih ⊢
      omega

theorem dollarQuote_length {t : Text} {run : Text × Text} (h : dollarQuote t = some run) :
    run.2.length < t.length := by
  obtain ⟨name, body, rfl, -, -, rfl⟩ := dollarQuote_some h
  obtain ⟨front, -, hbody⟩ | ⟨-, hbody⟩ := throughTag_tag ('$' :: name ++ ['$']) body
  · have hlength := congrArg List.length hbody
    simp only [List.length_append, List.length_cons] at hlength ⊢
    omega
  · rw [hbody]
    simp only [List.length_append, List.length_cons, List.length_nil]
    omega

theorem placeholder_length {t rest : Text} {number : ℕ} (h : placeholder t = some (number, rest)) :
    rest.length ≤ t.length := by
  simp only [placeholder] at h
  split at h
  · cases h
  · cases h
    simp

/-- Each piece takes something of the text. -/
theorem next_length {t rest : Text} {piece : Piece} (h : next t = some (piece, rest)) : rest.length < t.length := by
  revert h
  fun_cases next t with
  | case1 => rintro ⟨⟩
  | case2 t =>
      rintro ⟨⟩
      exact Nat.lt_succ_of_le (copyQuoted_length '\'' t)
  | case3 t =>
      rintro ⟨⟩
      exact Nat.lt_succ_of_le (copyQuoted_length '"' t)
  | case4 t =>
      rintro ⟨⟩
      have hlength := List.length_dropWhile_le (fun c => decide (c ≠ '\n')) t
      simp only [copyLineComment, List.length_cons]
      omega
  | case5 t =>
      rintro ⟨⟩
      have hlength := copyBlockComment_length 1 t
      simp only [List.length_cons]
      omega
  | case6 t run hrun =>
      rintro ⟨⟩
      exact Nat.lt_succ_of_lt (dollarQuote_length hrun)
  | case7 t hrun number rest hplaceholder =>
      rintro ⟨⟩
      exact Nat.lt_succ_of_le (placeholder_length hplaceholder)
  | case8 t =>
      rintro ⟨⟩
      simp
  | case9 c t =>
      rintro ⟨⟩
      simp

/-- What is written begins as the text does. -/
theorem next_written {t rest : Text} {piece : Piece} (h : next t = some (piece, rest)) :
    ∃ c w, piece.written = c :: w ∧ ((∃ r, t = c :: r) ∨ c = '?' ∧ ∃ r, t = '$' :: r) := by
  revert h
  fun_cases next t with
  | case1 => rintro ⟨⟩
  | case7 t =>
      rintro ⟨⟩
      exact ⟨'?', [], rfl, .inr ⟨rfl, _, rfl⟩⟩
  | _ =>
      rintro ⟨⟩
      exact ⟨_, _, rfl, .inl ⟨_, rfl⟩⟩

/-- The text that is written. -/
def rewritten (fuel : ℕ) (t : Text) : Text := (piecesLoop fuel t).flatMap Piece.written

theorem rewritten_next {fuel : ℕ} {t rest : Text} {piece : Piece} (h : next t = some (piece, rest)) :
    rewritten (fuel + 1) t = piece.written ++ rewritten fuel rest := by
  rw [rewritten, piecesLoop, h]
  rfl

theorem next_none {t : Text} (h : next t = none) : t = [] := by
  revert h
  fun_cases next t <;> simp

theorem next_tag {c : Char} {t : Text} (h : isTag c = true) : next (c :: t) = some (.char c, t) := by
  have hne : ∀ d, isTag d = false → c ≠ d := by
    rintro d hd rfl
    rw [h] at hd
    cases hd
  rw [next]
  · exact hne _ (by decide)
  · exact hne _ (by decide)
  · exact fun _ hc => absurd hc (hne _ (by decide))
  · exact fun _ hc => absurd hc (hne _ (by decide))
  · exact hne _ (by decide)

theorem follows_rewritten (fuel : ℕ) (t : Text) (h : t.length ≤ fuel) : Follows t (rewritten fuel t) := by
  induction fuel generalizing t with
  | zero =>
      obtain rfl : t = [] := List.length_eq_zero_iff.mp (by omega)
      exact ⟨fun _ => rfl, by simp [rewritten, piecesLoop], [], rfl, by simp⟩
  | succ fuel ih =>
      cases hnext : next t with
      | none =>
          obtain rfl := next_none hnext
          exact ⟨fun _ => rfl, by simp [rewritten, piecesLoop, next], [], rfl, by simp⟩
      | some result =>
          obtain ⟨piece, rest⟩ := result
          have hrest := ih rest (by have := next_length hnext; omega)
          obtain ⟨d, w, hwritten, hd⟩ := next_written hnext
          have hhead : ∀ c r, rewritten (fuel + 1) t = c :: r →
              (∃ r', t = c :: r') ∨ c = '?' ∧ ∃ r', t = '$' :: r' := by
            intro c r hc
            rw [rewritten_next hnext, hwritten] at hc
            obtain ⟨rfl, -⟩ := List.cons.inj hc
            exact hd
          refine ⟨?_, hhead, ?_⟩
          · rintro rfl
            cases hnext
          · cases t with
            | nil => cases hnext
            | cons c r =>
                cases htag : isTag c with
                | true =>
                    -- the name goes on
                    rw [next_tag htag] at hnext
                    cases hnext
                    obtain ⟨x', hx, hx'⟩ := hrest.name
                    refine ⟨x', ?_, ?_⟩
                    · rw [rewritten_next (next_tag htag), Piece.written, List.takeWhile_cons, if_pos htag, hx]
                      rfl
                    · simpa only [List.dropWhile_cons, htag, if_true] using hx'
                | false =>
                    refine ⟨rewritten (fuel + 1) (c :: r), by simp [htag], fun f y hf => ?_⟩
                    have hdrop : (c :: r).dropWhile isTag = c :: r := by simp [htag]
                    rw [hdrop]
                    obtain ⟨y', hy⟩ | ⟨rfl, -⟩ := hhead f y hf
                    · obtain ⟨rfl, -⟩ := List.cons.inj hy
                      exact ⟨htag, .inl ⟨_, rfl⟩⟩
                    · exact ⟨by decide, .inr rfl⟩

/-- The pieces of the text that is written. -/
theorem piecesLoop_rewritten (n fuel : ℕ) (t : Text) (hfuel : t.length ≤ fuel)
    (hn : (rewritten fuel t).length ≤ n) : piecesLoop n (rewritten fuel t) = (piecesLoop fuel t).map Piece.again := by
  induction fuel generalizing n t with
  | zero => cases n <;> rfl
  | succ fuel ih =>
      cases hnext : next t with
      | none =>
          obtain rfl := next_none hnext
          cases n <;> rfl
      | some result =>
          obtain ⟨piece, rest⟩ := result
          have hlength := next_length hnext
          have hrest : rest.length ≤ fuel := by omega
          obtain ⟨c, w, hwritten, -⟩ := next_written hnext
          rw [rewritten_next hnext] at hn ⊢
          have hpositive : 1 ≤ piece.written.length := by simp [hwritten]
          cases n with
          | zero =>
              rw [List.length_append] at hn
              omega
          | succ n =>
              have hagain := ih n rest hrest (by rw [List.length_append] at hn; omega)
              have hfollows := follows_rewritten fuel rest hrest
              simp only [piecesLoop, next_again hnext hfollows, hnext, hagain, List.map_cons]

theorem toJdbcLoop_pieces (fuel : ℕ) (t : Text) (out : Rewritten) :
    (toJdbcLoop fuel t out).sql = out.sql ++ rewritten fuel t ∧
      (toJdbcLoop fuel t out).order = out.order ++ (piecesLoop fuel t).flatMap Piece.order := by
  induction fuel generalizing t out with
  | zero => simp [toJdbcLoop, rewritten, piecesLoop]
  | succ fuel ih =>
      rw [toJdbcLoop_next, rewritten, piecesLoop]
      cases next t with
      | none => simp
      | some result =>
          obtain ⟨piece, rest⟩ := result
          obtain ⟨hsql, horder⟩ := ih rest
            ⟨out.sql ++ piece.written, match piece with
              | .numbered number => max out.highest number
              | _ => out.highest, out.order ++ piece.order⟩
          exact ⟨hsql.trans (by simp [rewritten]), horder.trans (by simp)⟩

theorem count_again (ps : List Piece) : (ps.map Piece.again).count (.char '?') =
    (ps.flatMap Piece.order).length + (ps.count (.char '?') + ps.count (.numbered 0)) := by
  induction ps with
  | nil => rfl
  | cons p ps ih =>
      cases p with
      | copied text => simpa [Piece.again, Piece.order] using ih
      | char c =>
          by_cases hc : c = '?'
          · subst hc
            simp [Piece.again, Piece.order, ih]
            omega
          · simpa [Piece.again, Piece.order, hc] using ih
      | numbered number =>
          cases number with
          | zero =>
              simp [Piece.again, Piece.order, ih]
              omega
          | succ number =>
              simp [Piece.again, Piece.order, ih]
              omega

/-- The driver finds a placeholder for each value, and the question marks that were none. -/
theorem marks_toJdbc (sql : Text) : marks (toJdbc sql).sql = (toJdbc sql).order.length + strays sql := by
  obtain ⟨hsql, horder⟩ := toJdbcLoop_pieces sql.length sql ⟨[], 0, []⟩
  rw [List.nil_append] at hsql horder
  rw [marks, pieces, toJdbc, hsql, horder, piecesLoop_rewritten _ _ _ le_rfl le_rfl, count_again]
  rfl

end Havuz.Jdbc
