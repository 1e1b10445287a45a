import Havuz.Json.Complete
import Havuz.Lib.Run

/-!
# What is rejected

A text that is parsed is read to its end: the strings in it are closed (`Closed`), and what stands behind a value is
white space, or the value would have been read on (`Firm`). So a text that ends inside a string is rejected, and so is a
document with something behind it. Every rejection is one of the code's own errors: the fuel lasts.
-/

namespace Havuz.Json

open Lib
open Lib.Reader (Consumes Stable Firm Avoids)

variable {J : Doubles}

/-! ## Strings are closed -/

/-- Where a text stands with its quotes. -/
inductive QuoteState where
  | outside
  | inside
  /-- Behind a backslash in a string. -/
  | escaped
deriving DecidableEq, Repr

def quoteStep : QuoteState → UInt16 → QuoteState
  | .outside, c => if c = unit '"' then .inside else .outside
  | .inside, c => if c = unit '"' then .outside else if c = unit '\\' then .escaped else .inside
  | .escaped, _ => .inside

/-- The text ends inside a string that is not terminated. -/
def endsInString (text : JString) : Prop := run quoteStep .outside text ≠ .outside

/-- Every string that begins in the text ends in it. -/
def Closed (text : JString) : Prop := run quoteStep .outside text = .outside

theorem closed_nil : Closed [] := rfl

theorem Closed.append {t t' : JString} (h : Closed t) (h' : Closed t') : Closed (t ++ t') := by
  rw [Closed, run_append, h]
  exact h'

theorem closed_cons {c : UInt16} (hc : c ≠ unit '"') {t : JString} (h : Closed t) : Closed (c :: t) := by
  rw [Closed, run_cons, quoteStep, if_neg hc]
  exact h

theorem closed_of_no_quote {t : JString} (h : ∀ c ∈ t, c ≠ unit '"') : Closed t := by
  induction t with
  | nil => rfl
  | cons c t ih =>
      obtain ⟨hc, ht⟩ := List.forall_mem_cons.mp h
      exact closed_cons hc (ih ht)

theorem run_inside {t : JString} (h : ∀ c ∈ t, c ≠ unit '"' ∧ c ≠ unit '\\') : run quoteStep .inside t = .inside := by
  induction t with
  | nil => rfl
  | cons c t ih =>
      obtain ⟨hc, ht⟩ := List.forall_mem_cons.mp h
      rw [run_cons, quoteStep, if_neg hc.1, if_neg hc.2]
      exact ih ht

/-- A digit in any script is no quote and no backslash. -/
theorem characterDigit_none {c : UInt16} (h : c = unit '"' ∨ c = unit '\\') : characterDigit c = none := by
  obtain rfl | rfl := h <;> decide

theorem parseDigits_some {n m : ℕ} {t : JString} (h : parseDigits n t = some m) : ∀ c ∈ t, c ≠ unit '"' ∧ c ≠ unit '\\' := by
  induction t generalizing n with
  | nil => exact fun c hc => absurd hc List.not_mem_nil
  | cons u t ih =>
      rw [parseDigits, Option.bind_eq_some_iff] at h
      obtain ⟨d, hd, hrest⟩ := h
      refine List.forall_mem_cons.mpr ⟨⟨?_, ?_⟩, ih hrest⟩
      · intro hquote
        rw [characterDigit_none (.inl hquote)] at hd
        cases hd
      · intro hescape
        rw [characterDigit_none (.inr hescape)] at hd
        cases hd

theorem parseInt16_some {a : UInt16} {rest : JString} {n : Int} (h : parseInt16 a rest = some n) :
    ∀ c ∈ a :: rest, c ≠ unit '"' ∧ c ≠ unit '\\' := by
  have hsign : (unit '-' ≠ unit '"' ∧ unit '-' ≠ unit '\\') ∧ unit '+' ≠ unit '"' ∧ unit '+' ≠ unit '\\' := by decide
  rw [parseInt16] at h
  split_ifs at h with hminus hplus
  · obtain ⟨m, hm, -⟩ := Option.map_eq_some_iff.mp h
    exact List.forall_mem_cons.mpr ⟨by rw [hminus]; exact hsign.1, parseDigits_some hm⟩
  · obtain ⟨m, hm, -⟩ := Option.map_eq_some_iff.mp h
    exact List.forall_mem_cons.mpr ⟨by rw [hplus]; exact hsign.2, parseDigits_some hm⟩
  · obtain ⟨m, hm, -⟩ := Option.map_eq_some_iff.mp h
    exact parseDigits_some hm

/-- The loop of `string` ends with the quote that closes it. -/
theorem stringLoop_took {out rest s : JString} {pos : ℕ} {c' : Cursor UInt16}
    (h : stringLoop out rest pos = .ok s c') :
    ∃ text, run quoteStep .inside text = .outside ∧ (Cursor.mk rest pos).Took c' text := by
  fun_induction stringLoop out rest pos
  case case2 out rest pos =>
    cases h
    exact ⟨[unit '"'], rfl, rfl, rfl⟩
  case case3 out c rest pos hquote hescape ih =>
    obtain ⟨text, hrun, htook⟩ := ih h
    have hstep : quoteStep .inside c = .inside := by rw [quoteStep, if_neg hquote, if_neg hescape]
    refine ⟨[c] ++ text, ?_, (Cursor.took_front [c] rest pos).trans htook⟩
    rw [run_append, run_cons, hstep]
    exact hrun
  case case5 out c pos hquote hescape escape rest u hshort ih =>
    obtain ⟨text, hrun, htook⟩ := ih h
    have hstep : quoteStep .inside c = .escaped := by rw [quoteStep, if_neg hquote, if_pos (not_not.mp hescape)]
    refine ⟨[c, escape] ++ text, ?_, (Cursor.took_front [c, escape] rest pos).trans htook⟩
    rw [run_append, run_cons, hstep]
    exact hrun
  case case6 out u pos hquote hescape a b c d after n hdigits hshort ih =>
    obtain ⟨text, hrun, htook⟩ := ih h
    have hstep : quoteStep .inside u = .escaped := by rw [quoteStep, if_neg hquote, if_pos (not_not.mp hescape)]
    refine ⟨[u, unit 'u'] ++ [a, b, c, d] ++ text, ?_, (Cursor.took_front ([u, unit 'u'] ++ [a, b, c, d]) after pos).trans htook⟩
    have hinside : run quoteStep .inside ([u, unit 'u'] ++ [a, b, c, d]) = .inside := by
      show run quoteStep (quoteStep (quoteStep .inside u) (unit 'u')) [a, b, c, d] = .inside
      rw [hstep]
      exact run_inside (parseInt16_some hdigits)
    rw [run_append, hinside]
    exact hrun
  -- the other cases throw
  all_goals cases h

/-! ## What is taken -/

/-- A text that is not empty, with its strings closed. -/
def Whole (t : JString) : Prop := Closed t ∧ t ≠ []

theorem Whole.append_left {t t' : JString} (h : Whole t) (h' : Closed t') : Whole (t ++ t') :=
  ⟨h.1.append h', fun hnil => h.2 (List.append_eq_nil_iff.mp hnil).1⟩

theorem Whole.append_right {t t' : JString} (h : Closed t) (h' : Whole t') : Whole (t ++ t') :=
  ⟨h.append h'.1, fun hnil => h'.2 (List.append_eq_nil_iff.mp hnil).2⟩

section Consumed

variable {α β : Type} {m : Parser α} {f : α → Parser β}

theorem consumes_skipWhitespace : Consumes Closed skipWhitespace := by
  refine (Reader.consumes_skip isBlank).mono fun text htext => closed_of_no_quote fun c hc => ?_
  rintro rfl
  have hblank := htext _ hc
  revert hblank
  decide

theorem consumes_expect (c : UInt16) : Consumes (fun t => t = [c]) (expect c) := by
  refine Consumes.next_bind fun u => ?_
  by_cases hu : u = c
  · rw [if_neg (not_not.mpr hu)]
    exact .pure (by rw [hu]) _
  · rw [if_pos hu]
    intro cur a c' h
    cases h

theorem consumes_string : Consumes Whole string := by
  have hrest : Consumes (fun t => run quoteStep .inside t = .outside) stringRest := fun c s c' h => stringLoop_took h
  refine (consumes_expect (unit '"')).bind (fun _ => hrest) ?_
  rintro t t' rfl ht'
  exact ⟨ht', by simp⟩

theorem consumes_peek : Consumes Closed peek := by
  intro c a c' h
  cases h
  exact ⟨[], rfl, .refl c⟩

theorem consumes_done : Consumes Closed done := by
  intro c a c' h
  cases h
  exact ⟨[], rfl, .refl c⟩

theorem Closed.bind (hm : Consumes Closed m) (hf : ∀ a, Consumes Closed (f a)) : Consumes Closed (m >>= f) :=
  hm.bind hf fun _ _ ht ht' => ht.append ht'

theorem Whole.bind (hm : Consumes Whole m) (hf : ∀ a, Consumes Closed (f a)) : Consumes Whole (m >>= f) :=
  hm.bind hf fun _ _ ht ht' => ht.append_left ht'

theorem Whole.bind_right (hm : Consumes Closed m) (hf : ∀ a, Consumes Whole (f a)) : Consumes Whole (m >>= f) :=
  hm.bind hf fun _ _ ht ht' => Whole.append_right ht ht'

theorem Consumes.closed (h : Consumes Whole m) : Consumes Closed m := h.mono fun _ ht => ht.1

theorem Consumes.nonempty (h : Consumes Whole m) : Consumes (· ≠ []) m := h.mono fun _ ht => ht.2

/-- A symbol that is no quote, and what is read behind it. -/
theorem Whole.expect_bind {c : UInt16} (hc : c ≠ unit '"') {g : Unit → Parser β} (hg : Consumes Closed (g ())) :
    Consumes Whole (expect c >>= g) := by
  refine (consumes_expect c).bind (fun _ => hg) ?_
  rintro t t' rfl ht'
  exact ⟨closed_cons hc ht', by simp⟩

/-- The symbol behind an item: it closes, or it is a comma and the loop goes on. -/
theorem consumes_turn {close : UInt16} (hclose : close ≠ unit '"') {closed : α} {error : ℕ → ParseError} {loop : Parser α}
    (hloop : Consumes Whole loop) :
    Consumes Whole (do
      let c ← next
      if c = close then return closed
      if c ≠ unit ',' then throw (error ((← get).pos - 1))
      loop) := by
  refine Consumes.next_bind fun c => ?_
  by_cases hc : c = close
  · rw [if_pos hc]
    exact .pure ⟨closed_cons (by rw [hc]; exact hclose) rfl, by simp⟩ _
  · rw [if_neg hc]
    by_cases hcomma : c = unit ','
    · rw [if_neg (not_not.mpr hcomma)]
      refine hloop.mono fun t ht => ⟨closed_cons ?_ ht.1, by simp⟩
      rw [hcomma]
      decide
    · rw [if_pos hcomma]
      intro cur a c' h
      cases h

variable {item : Parser (Value J)}

theorem consumes_elements (hitem : Consumes Whole item) (n : ℕ) (out : List (Value J)) :
    Consumes Whole (elements item n out) := by
  induction n generalizing out with
  | zero => exact .throw _
  | succ n ih =>
      rw [elements]
      refine Whole.bind_right consumes_skipWhitespace fun _ => Whole.bind hitem fun v => ?_
      refine Closed.bind consumes_skipWhitespace fun _ => ?_
      exact Consumes.closed (consumes_turn (by decide) (ih (out ++ [v])))

theorem consumes_members (hitem : Consumes Whole item) (n : ℕ) (out : List (JString × Value J)) :
    Consumes Whole (members item n out) := by
  induction n generalizing out with
  | zero => exact .throw _
  | succ n ih =>
      rw [members]
      refine Whole.bind_right consumes_skipWhitespace fun _ => Whole.bind consumes_string fun key => ?_
      refine Closed.bind consumes_skipWhitespace fun _ => ?_
      refine Consumes.closed (Whole.expect_bind (by decide) ?_)
      refine Closed.bind consumes_skipWhitespace fun _ => Closed.bind (Consumes.closed hitem) fun v => ?_
      refine Closed.bind consumes_skipWhitespace fun _ => ?_
      exact Consumes.closed (consumes_turn (by decide) (ih (put out key v)))

/-- The symbol behind an opening bracket: it closes at once, or the loop begins. -/
theorem consumes_first {close : UInt16} (hclose : close ≠ unit '"') {closed : α} {loop : Parser α}
    (hloop : Consumes Whole loop) :
    Consumes Whole (do
      if (← peek) = close then
        let _ ← next
        return closed
      loop) := by
  intro c a c' h
  obtain ⟨u, c₁, hpeek, h⟩ := Reader.bind_ok.mp h
  cases hpeek
  by_cases hu : c.rest.headD 0 = close
  · rw [if_pos hu] at h
    obtain ⟨w, c₂, hnext, h⟩ := Reader.bind_ok.mp h
    cases h
    obtain ⟨hc, hpos⟩ := Reader.next_ok hnext
    have hw : w = close := by
      rw [hc] at hu
      exact hu
    exact ⟨[w], ⟨closed_cons (by rw [hw]; exact hclose) rfl, by simp⟩, by rw [hc]; rfl, hpos⟩
  · rw [if_neg hu] at h
    exact hloop c a c' h

theorem consumes_array (hitem : Consumes Whole item) (n : ℕ) : Consumes Whole (array item n) := by
  refine Whole.expect_bind (by decide) (Closed.bind consumes_skipWhitespace fun _ => ?_)
  exact Consumes.closed (consumes_first (by decide) (consumes_elements hitem n []))

theorem consumes_object (hitem : Consumes Whole item) (n : ℕ) : Consumes Whole (object item n) := by
  refine Whole.expect_bind (by decide) (Closed.bind consumes_skipWhitespace fun _ => ?_)
  exact Consumes.closed (consumes_first (by decide) (consumes_members hitem n []))

theorem consumes_literal {text : JString} (htext : Whole text) (v : Value J) : Consumes Whole (literal text v) := by
  intro c a c' h
  rw [literal] at h
  split_ifs at h with hstarts
  cases h
  obtain ⟨rest, hrest⟩ := List.isPrefixOf_iff_prefix.mp hstarts
  exact ⟨text, htext, by rw [← hrest, List.drop_left], rfl⟩

/-- The value is a `Long` or a `Double`. -/
def Value.isNumber : Value J → Bool
  | .long _ => true
  | .double _ => true
  | _ => false

/-- The text of a number is converted wherever it stands. -/
theorem convert_ok {start : ℕ} {text : JString} {fractional : Bool} {c c' : Cursor UInt16} {v : Value J}
    (h : convert start text fractional c = .ok v c') :
    text ≠ [] ∧ c' = c ∧ v.isNumber = true ∧ ∀ start' d, convert start' text fractional d = .ok v d := by
  by_cases htext : text = []
  · rw [convert, htext] at h
    cases h
  · have hempty : ¬ text.isEmpty = true := by simpa using htext
    refine ⟨htext, ?_⟩
    simp only [convert, if_neg hempty] at h ⊢
    cases hlong : if fractional then none else parseLong text with
    | some n =>
        rw [hlong] at h
        cases h
        exact ⟨rfl, rfl, fun _ _ => rfl⟩
    | none =>
        rw [hlong] at h
        dsimp only at h ⊢
        cases hdouble : J.parseDouble text with
        | some d =>
            rw [hdouble] at h
            cases h
            exact ⟨rfl, rfl, fun _ _ => rfl⟩
        | none =>
            rw [hdouble] at h
            cases h

theorem consumes_number : Consumes Whole (number : Parser (Value J)) := by
  intro c v c' h
  rw [number_eq] at h
  obtain ⟨htext, rfl, -⟩ := convert_ok h
  refine ⟨c.rest.takeWhile isNumberUnit, ⟨closed_of_no_quote fun u hu => ?_, htext⟩, ?_, rfl⟩
  · rintro rfl
    have hnumber := List.mem_takeWhile_imp hu
    revert hnumber
    decide
  · exact (List.takeWhile_append_dropWhile).symm

theorem consumes_value (fuel : ℕ) : Consumes Whole (value fuel : Parser (Value J)) := by
  induction fuel with
  | zero => exact .throw _
  | succ fuel ih =>
      intro c a c' h
      obtain ⟨rest, pos⟩ := c
      match rest, h with
      | u :: t, h =>
        rw [value_cons] at h
        split_ifs at h
        · exact consumes_object ih fuel _ _ _ h
        · exact consumes_array ih fuel _ _ _ h
        · exact Whole.bind consumes_string (fun s => Consumes.pure closed_nil (Value.string s)) _ _ _ h
        · exact consumes_literal ⟨closed_of_no_quote fun _ hc => ne_of_mem_of_not_mem hc (by decide), by decide⟩ _ _ _ _ h
        · exact consumes_literal ⟨closed_of_no_quote fun _ hc => ne_of_mem_of_not_mem hc (by decide), by decide⟩ _ _ _ _ h
        · exact consumes_literal ⟨closed_of_no_quote fun _ hc => ne_of_mem_of_not_mem hc (by decide), by decide⟩ _ _ _ _ h
        · exact consumes_number _ _ _ h

end Consumed

/-! ## What follows is left alone -/

section More

variable {α β : Type} {m m' : Parser α}

theorem stringLoop_more {out rest s : JString} {pos : ℕ} {c' : Cursor UInt16} (more : JString)
    (h : stringLoop out rest pos = .ok s c') : stringLoop out (rest ++ more) pos = .ok s (c'.extend more) := by
  fun_induction stringLoop out rest pos
  case case2 out rest pos =>
    cases h
    exact stringLoop_quote _ _ _
  case case3 out c rest pos hquote hescape ih =>
    rw [List.cons_append, stringLoop_plain hquote hescape, ih h]
  case case5 out c pos hquote hescape escape rest u hshort ih =>
    rw [not_not.mp hescape, List.cons_append, List.cons_append, stringLoop_short hshort, ih h]
  case case6 out u pos hquote hescape a b c d after n hdigits hshort ih =>
    rw [not_not.mp hescape]
    simp only [List.cons_append]
    rw [stringLoop_unicode hdigits, ih h]
  -- the other cases throw
  all_goals cases h

theorem firm_expect (c : UInt16) : Firm (expect c) (expect c) := by
  refine (Reader.firm_next _).bind fun u => ?_
  by_cases hu : u ≠ c
  · rw [if_pos hu]
    intro cur a c' more h
    cases h
  · rw [if_neg hu]
    exact .pure _

theorem firm_string : Firm string string :=
  (firm_expect _).bind fun _ _ _ _ more h => stringLoop_more more h

theorem stable_skipWhitespace : Stable skipWhitespace skipWhitespace := Reader.stable_skip isBlank

theorem stable_peek : Stable peek peek := by
  intro c a c' more h hrest
  cases h
  obtain ⟨rest, pos⟩ := c
  match rest, hrest with
  | u :: t, _ => rfl

/-- White space in front of what is firm and takes something. -/
theorem firm_skip {f f' : Unit → Parser α} (hf : Firm (f ()) (f' ())) (hT : Consumes Whole (f ())) :
    Firm (skipWhitespace >>= f) (skipWhitespace >>= f') :=
  stable_skipWhitespace.bind_firm (fun _ => hf) fun _ => Consumes.nonempty hT

theorem firm_turn {close : UInt16} {closed : α} {error : ℕ → ParseError} {loop loop' : Parser α} (hloop : Firm loop loop') :
    Firm (do
      let c ← next
      if c = close then return closed
      if c ≠ unit ',' then throw (error ((← get).pos - 1))
      loop) (do
      let c ← next
      if c = close then return closed
      if c ≠ unit ',' then throw (error ((← get).pos - 1))
      loop') := by
  refine (Reader.firm_next _).bind fun c => ?_
  by_cases hc : c = close
  · rw [if_pos hc, if_pos hc]
    exact .pure _
  · rw [if_neg hc, if_neg hc]
    by_cases hcomma : c = unit ','
    · rw [if_neg (not_not.mpr hcomma), if_neg (not_not.mpr hcomma)]
      exact hloop
    · rw [if_pos hcomma]
      intro cur a c' more h
      cases h

variable {item item' : Parser (Value J)}

theorem firm_elements (hitem : Stable item item') (hwhole : Consumes Whole item) {n n' : ℕ} (hn : n ≤ n')
    (out : List (Value J)) : Firm (elements item n out) (elements item' n' out) := by
  induction n generalizing n' out with
  | zero => exact .throw _
  | succ n ih =>
      obtain ⟨n', rfl⟩ : ∃ k, n' = k + 1 := ⟨n' - 1, by omega⟩
      have hturn : ∀ v, Consumes Whole (do
          let c ← next
          if c = unit ']' then return Value.list (out ++ [v])
          if c ≠ unit ',' then throw (.expectedCommaOrBracket ((← get).pos - 1))
          elements item n (out ++ [v])) := fun v =>
        consumes_turn (by decide) (consumes_elements hwhole n (out ++ [v]))
      rw [elements, elements]
      refine firm_skip (hitem.bind_firm (fun v => firm_skip (firm_turn (ih (by omega) _)) (hturn v)) fun v => ?_) ?_
      · exact Consumes.nonempty (Whole.bind_right consumes_skipWhitespace fun _ => hturn v)
      · exact Whole.bind hwhole fun v => Closed.bind consumes_skipWhitespace fun _ => Consumes.closed (hturn v)

theorem firm_members (hitem : Stable item item') (hwhole : Consumes Whole item) {n n' : ℕ} (hn : n ≤ n')
    (out : List (JString × Value J)) : Firm (members item n out) (members item' n' out) := by
  induction n generalizing n' out with
  | zero => exact .throw _
  | succ n ih =>
      obtain ⟨n', rfl⟩ : ∃ k, n' = k + 1 := ⟨n' - 1, by omega⟩
      have hturn : ∀ key v, Consumes Whole (do
          let c ← next
          if c = unit '\x7d' then return Value.map (put out key v)
          if c ≠ unit ',' then throw (.expectedCommaOrBrace ((← get).pos - 1))
          members item n (put out key v)) := fun key v =>
        consumes_turn (by decide) (consumes_members hwhole n (put out key v))
      have hvalue : ∀ key, Consumes Whole (item >>= fun v => do
          skipWhitespace
          let c ← next
          if c = unit '\x7d' then return Value.map (put out key v)
          if c ≠ unit ',' then throw (.expectedCommaOrBrace ((← get).pos - 1))
          members item n (put out key v)) := fun key =>
        Whole.bind hwhole fun v => Closed.bind consumes_skipWhitespace fun _ => Consumes.closed (hturn key v)
      have hcolon : ∀ key, Consumes Whole (expect (unit ':') >>= fun _ => do
          skipWhitespace
          let v ← item
          skipWhitespace
          let c ← next
          if c = unit '\x7d' then return Value.map (put out key v)
          if c ≠ unit ',' then throw (.expectedCommaOrBrace ((← get).pos - 1))
          members item n (put out key v)) := fun key =>
        Whole.expect_bind (by decide) (Closed.bind consumes_skipWhitespace fun _ => Consumes.closed (hvalue key))
      rw [members, members]
      refine firm_skip (firm_string.bind fun key => firm_skip ((firm_expect _).bind fun _ => firm_skip
        (hitem.bind_firm (fun v => firm_skip (firm_turn (ih (by omega) _)) (hturn key v)) fun v => ?_) (hvalue key))
        (hcolon key)) ?_
      · exact Consumes.nonempty (Whole.bind_right consumes_skipWhitespace fun _ => hturn key v)
      · exact Whole.bind consumes_string fun key => Closed.bind consumes_skipWhitespace fun _ => Consumes.closed (hcolon key)

theorem firm_first {close : UInt16} {closed : α} {loop loop' : Parser α} (hloop : Firm loop loop')
    (hT : Consumes Whole loop) :
    Firm (do
      skipWhitespace
      if (← peek) = close then
        let _ ← next
        return closed
      loop) (do
      skipWhitespace
      if (← peek) = close then
        let _ ← next
        return closed
      loop') := by
  have hnext : Consumes (· ≠ []) (next >>= fun _ => (return closed : Parser α)) :=
    Consumes.next_bind fun _ => .pure (by simp) _
  have hbranch : ∀ u, Consumes (· ≠ []) (if u = close then next >>= fun _ => (return closed : Parser α) else loop) := by
    intro u
    split_ifs
    · exact hnext
    · exact Consumes.nonempty hT
  have hfirm : ∀ u, Firm (if u = close then next >>= fun _ => (return closed : Parser α) else loop)
      (if u = close then next >>= fun _ => (return closed : Parser α) else loop') := by
    intro u
    split_ifs
    · exact (Reader.firm_next _).bind fun _ => .pure _
    · exact hloop
  refine stable_skipWhitespace.bind_firm (fun _ => stable_peek.bind_firm hfirm hbranch) fun _ => ?_
  exact consumes_peek.bind hbranch fun t t' _ ht' hnil => ht' (List.append_eq_nil_iff.mp hnil).2

theorem firm_array (hitem : Stable item item') (hwhole : Consumes Whole item) {n n' : ℕ} (hn : n ≤ n') :
    Firm (array item n) (array item' n') :=
  (firm_expect _).bind fun _ => firm_first (firm_elements hitem hwhole hn []) (consumes_elements hwhole n [])

theorem firm_object (hitem : Stable item item') (hwhole : Consumes Whole item) {n n' : ℕ} (hn : n ≤ n') :
    Firm (object item n) (object item' n') :=
  (firm_expect _).bind fun _ => firm_first (firm_members hitem hwhole hn []) (consumes_members hwhole n [])

theorem firm_literal (text : JString) (v : Value J) : Firm (literal text v) (literal text v) := by
  intro c a c' more h
  rw [literal] at h
  split_ifs at h with hstarts
  cases h
  obtain ⟨rest, hrest⟩ := List.isPrefixOf_iff_prefix.mp hstarts
  have hmore := literal_text text (rest ++ more) v c.pos
  rw [Cursor.extend, ← hrest, List.append_assoc, hmore, Cursor.extend, List.drop_left]

/-- A number is read on only by number symbols. -/
theorem number_more {c c' : Cursor UInt16} {v : Value J} {more : JString} (h : number c = .ok v c')
    (hrest : c'.rest ≠ [] ∨ Ends more) : number (c.extend more) = .ok v (c'.extend more) := by
  rw [number_eq] at h
  obtain ⟨-, rfl, -, hagain⟩ := convert_ok h
  have hsame : (c.rest ++ more).takeWhile isNumberUnit = c.rest.takeWhile isNumberUnit ∧
      (c.rest ++ more).dropWhile isNumberUnit = c.rest.dropWhile isNumberUnit ++ more := by
    by_cases hleft : c.rest.dropWhile isNumberUnit = []
    · -- the number ends the text, and no number symbol follows
      have hends : Ends more := hrest.resolve_left fun hne => hne hleft
      have hall : ∀ u ∈ c.rest, isNumberUnit u = true := List.dropWhile_eq_nil_iff.mp hleft
      rw [List.takeWhile_append_of_pos hall, List.dropWhile_append_of_pos hall, hends.stops.1, hends.stops.2, hleft,
        List.append_nil, List.takeWhile_eq_self_iff.mpr hall]
      exact ⟨rfl, rfl⟩
    · have hshort : ¬ (c.rest.takeWhile isNumberUnit).length = c.rest.length := by
        intro hlength
        have hall : ∀ u ∈ c.rest, isNumberUnit u = true :=
          List.takeWhile_eq_self_iff.mp ((List.takeWhile_prefix _).eq_of_length hlength)
        exact hleft (List.dropWhile_eq_nil_iff.mpr hall)
      rw [List.takeWhile_append, if_neg hshort, List.dropWhile_append, if_neg (by simpa using hleft)]
      exact ⟨rfl, rfl⟩
  rw [number_eq, Cursor.extend_rest, Cursor.extend_pos, hsame.1, hsame.2, hagain]
  rfl

/-- A value is read the same with more behind it, if that does not go on with a number. -/
theorem value_more {fuel fuel' : ℕ} (hfuel : fuel ≤ fuel') {c c' : Cursor UInt16} {v : Value J} {more : JString}
    (h : value fuel c = .ok v c') (hrest : c'.rest ≠ [] ∨ (v.isNumber = true → Ends more)) :
    value fuel' (c.extend more) = .ok v (c'.extend more) := by
  induction fuel generalizing fuel' c c' v more with
  | zero => cases h
  | succ fuel ih =>
      obtain ⟨fuel', rfl⟩ : ∃ k, fuel' = k + 1 := ⟨fuel' - 1, by omega⟩
      have hstable : Stable (value fuel : Parser (Value J)) (value fuel') := fun c v c' more hv hleft =>
        ih (by omega) hv (.inl hleft)
      obtain ⟨rest, pos⟩ := c
      match rest, h with
      | u :: t, h =>
        have hcons : (Cursor.mk (u :: t) pos).extend more = ⟨u :: (t ++ more), pos⟩ := rfl
        rw [value_cons] at h
        rw [hcons, value_cons]
        split_ifs at h ⊢
        · exact firm_object hstable (consumes_value fuel) (by omega) _ _ _ more h
        · exact firm_array hstable (consumes_value fuel) (by omega) _ _ _ more h
        · exact firm_string.bind (fun s => .pure (Value.string s)) _ _ _ more h
        · exact firm_literal _ _ _ _ _ more h
        · exact firm_literal _ _ _ _ _ more h
        · exact firm_literal _ _ _ _ _ more h
        · refine number_more h (hrest.imp_right fun hends => hends ?_)
          rw [number_eq] at h
          exact (convert_ok h).2.2.1

end More

/-! ## The fuel lasts -/

section Lasts

variable {α β : Type} {m : Parser α} {n : ℕ}

/-- With fewer than `n` code units left the fuel lasts. -/
abbrev Lasts (n : ℕ) (m : Parser α) : Prop := Avoids .exhausted n m

theorem lasts_get_throw {f : Cursor UInt16 → ParseError} (hf : ∀ c, f c ≠ .exhausted) :
    Lasts n (do throw (f (← get)) : Parser α) := by
  intro c c' _ h
  have hthrown : (EStateM.Result.error (f c) c : EStateM.Result ParseError (Cursor UInt16) α) = .error .exhausted c' := h
  exact hf c (EStateM.Result.error.inj hthrown).1

theorem lasts_skipWhitespace : Lasts n skipWhitespace := Reader.avoids_skip isBlank

theorem lasts_next : Lasts n next := Reader.avoids_next (by simp)

theorem lasts_expect (u : UInt16) : Lasts n (expect u) := by
  refine lasts_next.bind (Reader.consumes_next _) fun c => ?_
  split_ifs
  · exact lasts_get_throw fun c => by simp
  · exact .pure _

theorem stringLoop_lasts {out rest : JString} {pos : ℕ} {c' : Cursor UInt16} :
    stringLoop out rest pos ≠ .error .exhausted c' := by
  intro h
  fun_induction stringLoop out rest pos
  case case3 ih => exact ih h
  case case5 ih => exact ih h
  case case6 ih => exact ih h
  all_goals cases h

theorem lasts_string : Lasts n string :=
  (lasts_expect _).bind (consumes_expect _) fun _ _ _ _ => stringLoop_lasts

theorem lasts_turn {close : UInt16} {closed : α} {error : ℕ → ParseError} (herror : ∀ k, error k ≠ .exhausted)
    {loop : Parser α} (hloop : Lasts n loop) :
    Lasts n (do
      let c ← next
      if c = close then return closed
      if c ≠ unit ',' then throw (error ((← get).pos - 1))
      loop) := by
  refine lasts_next.bind (Reader.consumes_next _) fun c => ?_
  split_ifs
  · exact .pure _
  · exact lasts_get_throw fun c => herror _
  · exact hloop

/-- The fuel lasts for less. -/
theorem Lasts.less {k : ℕ} (h : Lasts n m) (hk : k ≤ n) : Lasts k m := fun c c' hlength => h c c' (by omega)

variable {item : Parser (Value J)}

theorem lasts_elements {n k : ℕ} (hitem : Lasts k item) (hwhole : Consumes Whole item) (hn : n ≤ k) (out : List (Value J)) :
    Lasts n (elements item n out) := by
  induction n generalizing out with
  | zero => exact fun c c' h => absurd h (by omega)
  | succ n ih =>
      rw [elements]
      refine lasts_skipWhitespace.bind consumes_skipWhitespace fun _ => ?_
      refine Avoids.bind_less (Lasts.less hitem hn) (Consumes.nonempty hwhole) fun v => ?_
      refine lasts_skipWhitespace.bind consumes_skipWhitespace fun _ => ?_
      exact lasts_turn (fun k => by simp) (ih (by omega) _)

theorem lasts_members {n k : ℕ} (hitem : Lasts k item) (hwhole : Consumes Whole item) (hn : n ≤ k)
    (out : List (JString × Value J)) : Lasts n (members item n out) := by
  induction n generalizing out with
  | zero => exact fun c c' h => absurd h (by omega)
  | succ n ih =>
      rw [members]
      refine lasts_skipWhitespace.bind consumes_skipWhitespace fun _ => ?_
      refine Avoids.bind_less lasts_string (Consumes.nonempty consumes_string) fun key => ?_
      refine lasts_skipWhitespace.bind consumes_skipWhitespace fun _ => ?_
      refine (lasts_expect _).bind (consumes_expect _) fun _ => ?_
      refine lasts_skipWhitespace.bind consumes_skipWhitespace fun _ => ?_
      refine (Lasts.less hitem (by omega)).bind hwhole fun v => ?_
      refine lasts_skipWhitespace.bind consumes_skipWhitespace fun _ => ?_
      exact lasts_turn (fun k => by simp) (ih (by omega) _)

theorem lasts_first {close : UInt16} {closed : α} {loop : Parser α} (hloop : Lasts n loop) :
    Lasts n (do
      skipWhitespace
      if (← peek) = close then
        let _ ← next
        return closed
      loop) := by
  refine lasts_skipWhitespace.bind consumes_skipWhitespace fun _ => ?_
  refine Avoids.bind (fun c c' _ h => by cases h) consumes_peek fun u => ?_
  split_ifs
  · exact lasts_next.bind (Reader.consumes_next _) fun _ => .pure _
  · exact hloop

theorem lasts_array (hitem : Lasts n item) (hwhole : Consumes Whole item) : Lasts (n + 1) (array item n) :=
  Avoids.bind_less (lasts_expect _) ((consumes_expect _).mono fun t ht => by simp [ht]) fun _ =>
    lasts_first (lasts_elements hitem hwhole le_rfl [])

theorem lasts_object (hitem : Lasts n item) (hwhole : Consumes Whole item) : Lasts (n + 1) (object item n) :=
  Avoids.bind_less (lasts_expect _) ((consumes_expect _).mono fun t ht => by simp [ht]) fun _ =>
    lasts_first (lasts_members hitem hwhole le_rfl [])

theorem lasts_literal (text : JString) (v : Value J) : Lasts n (literal text v) := by
  intro c c' _ h
  rw [literal] at h
  split_ifs at h
  cases h

theorem convert_lasts {start : ℕ} {text : JString} {fractional : Bool} {c c' : Cursor UInt16} :
    (convert start text fractional : Parser (Value J)) c ≠ .error .exhausted c' := by
  intro h
  by_cases htext : text.isEmpty = true
  · rw [convert, if_pos htext] at h
    cases h
  · rw [convert, if_neg htext] at h
    cases hlong : if fractional then none else parseLong text with
    | some n =>
        rw [hlong] at h
        cases h
    | none =>
        rw [hlong] at h
        dsimp only at h
        cases hdouble : J.parseDouble text with
        | some d =>
            rw [hdouble] at h
            cases h
        | none =>
            rw [hdouble] at h
            cases h

theorem lasts_number : Lasts n (number : Parser (Value J)) := by
  intro c c' _ h
  rw [number_eq] at h
  exact convert_lasts h

theorem lasts_value (fuel : ℕ) : Lasts fuel (value fuel : Parser (Value J)) := by
  induction fuel with
  | zero => exact fun c c' h => absurd h (by omega)
  | succ fuel ih =>
      intro c c' hlength h
      obtain ⟨rest, pos⟩ := c
      match rest, hlength, h with
      | [], _, h => cases h
      | u :: t, hlength, h =>
        rw [value_cons] at h
        split_ifs at h
        · exact lasts_object ih (consumes_value fuel) _ _ hlength h
        · exact lasts_array ih (consumes_value fuel) _ _ hlength h
        · exact Avoids.bind lasts_string consumes_string (fun s => .pure (Value.string s)) _ _ hlength h
        · exact lasts_literal _ _ _ _ hlength h
        · exact lasts_literal _ _ _ _ hlength h
        · exact lasts_literal _ _ _ _ hlength h
        · exact lasts_number _ _ hlength h

end Lasts

/-! ## Rejected texts -/

/-- The text is rejected, by one of the code's own errors. -/
def Rejected (J : Doubles) (input : JString) : Prop :=
  ∃ e, e ≠ .exhausted ∧ (parse input : Except ParseError (Value J)) = .error e

theorem lasts_document (fuel : ℕ) : Lasts fuel (document fuel : Parser (Value J)) := by
  refine lasts_skipWhitespace.bind consumes_skipWhitespace fun _ => ?_
  refine (lasts_value fuel).bind (consumes_value fuel) fun v => ?_
  refine lasts_skipWhitespace.bind consumes_skipWhitespace fun _ => ?_
  refine Avoids.bind (fun c c' _ h => by cases h) consumes_done fun b => ?_
  split_ifs
  · exact lasts_get_throw fun c => by simp
  · exact .pure _

/-- What is not parsed is rejected. -/
theorem rejected_of_not_ok {input : JString} (h : ∀ v : Value J, parse input ≠ .ok v) : Rejected J input := by
  cases hdocument : (document (input.length + 1) : Parser (Value J)) ⟨input, 0⟩ with
  | ok v c => exact absurd (by rw [parse, hdocument]) (h v)
  | error e c =>
      refine ⟨e, ?_, by rw [parse, hdocument]⟩
      rintro rfl
      exact lasts_document (J := J) (input.length + 1) ⟨input, 0⟩ c (Nat.lt_succ_self _) hdocument

/-- How a text is parsed: a value between blanks, and nothing behind them. -/
theorem parse_ok {input : JString} {v : Value J} (h : parse input = .ok v) :
    ∃ c₁ c₂ : Cursor UInt16, skipWhitespace ⟨input, 0⟩ = .ok () c₁ ∧ value (input.length + 1) c₁ = .ok v c₂ ∧
      ∀ u ∈ c₂.rest, isBlank u = true := by
  have hdocument : ∃ c, (document (input.length + 1) : Parser (Value J)) ⟨input, 0⟩ = .ok v c := by
    rw [parse] at h
    cases hresult : (document (input.length + 1) : Parser (Value J)) ⟨input, 0⟩ with
    | ok w c =>
        rw [hresult] at h
        cases h
        exact ⟨c, rfl⟩
    | error e c =>
        rw [hresult] at h
        cases h
  obtain ⟨c, hdocument⟩ := hdocument
  rw [document] at hdocument
  obtain ⟨_, c₁, hskip, hdocument⟩ := Reader.bind_ok.mp hdocument
  obtain ⟨w, c₂, hvalue, hdocument⟩ := Reader.bind_ok.mp hdocument
  obtain ⟨_, c₃, hblank, hdocument⟩ := Reader.bind_ok.mp hdocument
  obtain ⟨b, c₄, hdone, hdocument⟩ := Reader.bind_ok.mp hdocument
  cases hblank
  cases hdone
  by_cases hend : c₂.rest.dropWhile isBlank = []
  · rw [if_neg (by simp [hend])] at hdocument
    cases hdocument
    exact ⟨c₁, c₂, hskip, hvalue, List.dropWhile_eq_nil_iff.mp hend⟩
  · rw [if_pos (by simpa using hend)] at hdocument
    cases hdocument

/-- A text that ends inside a string is rejected. -/
theorem rejected_of_endsInString {input : JString} (h : endsInString input) : Rejected J input := by
  refine rejected_of_not_ok fun v hv => h ?_
  obtain ⟨c₁, c₂, hskip, hvalue, hblank⟩ := parse_ok hv
  obtain ⟨before, hbefore, htook⟩ := consumes_skipWhitespace _ _ _ hskip
  obtain ⟨text, ⟨htext, -⟩, htook'⟩ := consumes_value _ _ _ _ hvalue
  have hquote : isBlank (unit '"') = false := by decide
  have hafter : Closed c₂.rest := closed_of_no_quote fun u hu => by
    rintro rfl
    exact Bool.false_ne_true (hquote.symm.trans (hblank _ hu))
  have hinput : input = before ++ (text ++ c₂.rest) := by
    rw [← htook'.1]
    exact htook.1
  rw [hinput]
  exact hbefore.append (htext.append hafter)

/-- What stands behind a text that is parsed is not passed over. -/
theorem trailing_rejected {t more : JString} {v : Value J} (h : parse t = .ok v) (hmore : ∃ u ∈ more, isBlank u = false)
    (hnumber : v.isNumber = true → Ends more) :
    ∃ k, (parse (t ++ more) : Except ParseError (Value J)) = .error (.trailingContent k) := by
  obtain ⟨c₁, c₂, hskip, hvalue, hblank⟩ := parse_ok h
  have hleft : c₁.rest ≠ [] := by
    obtain ⟨text, ⟨-, hne⟩, htook⟩ := consumes_value _ _ _ _ hvalue
    rw [htook.1]
    exact fun hnil => hne (List.append_eq_nil_iff.mp hnil).1
  have hskip' : skipWhitespace ⟨t ++ more, 0⟩ = .ok () (c₁.extend more) :=
    stable_skipWhitespace ⟨t, 0⟩ () c₁ more hskip hleft
  have hlonger : t.length + 1 ≤ (t ++ more).length + 1 := by
    rw [List.length_append]
    omega
  have hvalue' := value_more hlonger hvalue (.inr hnumber)
  have hstop : (c₂.rest ++ more).dropWhile isBlank ≠ [] := by
    intro hnil
    obtain ⟨u, hu, hne⟩ := hmore
    have hall := List.dropWhile_eq_nil_iff.mp hnil u (List.mem_append_right _ hu)
    exact Bool.false_ne_true (hne.symm.trans hall)
  have hdocument : (document ((t ++ more).length + 1) : Parser (Value J)) ⟨t ++ more, 0⟩ =
      .error (.trailingContent (c₂.pos + ((c₂.rest ++ more).takeWhile isBlank).length))
        ⟨(c₂.rest ++ more).dropWhile isBlank, c₂.pos + ((c₂.rest ++ more).takeWhile isBlank).length⟩ := by
    rw [document, bind_apply, hskip']
    dsimp only
    rw [bind_apply, hvalue']
    show (do
      if !(← done) then throw (ParseError.trailingContent (← get).pos)
      return v : Parser (Value J))
      ⟨(c₂.rest ++ more).dropWhile isBlank, c₂.pos + ((c₂.rest ++ more).takeWhile isBlank).length⟩ = _
    have hdone : done ⟨(c₂.rest ++ more).dropWhile isBlank, c₂.pos + ((c₂.rest ++ more).takeWhile isBlank).length⟩ =
        .ok false ⟨(c₂.rest ++ more).dropWhile isBlank, c₂.pos + ((c₂.rest ++ more).takeWhile isBlank).length⟩ := by
      rw [done, List.isEmpty_eq_false_iff.mpr hstop]
    rw [bind_apply, hdone]
    rfl
  exact ⟨_, by rw [parse, hdocument]⟩

end Havuz.Json
