import Mathlib
import Havuz.Json.Document

/-!
# Every document is read

The parser reads the text of a document to its end and no further, and gives the value the document denotes (`reads_doc`).
What follows a document must not go on with it: behind a number no number symbol may stand. Within arrays and objects
this holds of itself, since a blank, a comma or a bracket comes next.
-/

namespace Havuz.Json

open Lib

variable {J : Doubles}

/-! ## Tokens -/

theorem isBlank_eq (c : UInt16) : isBlank c = isSpace c := rfl

/-- Where white space is passed over to. -/
def Begins (rest : JString) : Prop := ∀ c ∈ rest.head?, isBlank c = false

/-- What may stand behind a number. -/
def Ends (rest : JString) : Prop := ∀ c ∈ rest.head?, isNumberUnit c = false

theorem begins_cons {c : UInt16} (h : isBlank c = false) (rest : JString) : Begins (c :: rest) := by
  intro d hd
  cases hd
  exact h

theorem ends_cons {c : UInt16} (h : isNumberUnit c = false) (rest : JString) : Ends (c :: rest) := by
  intro d hd
  cases hd
  exact h

theorem isNumberUnit_of_isSpace {c : UInt16} (h : isSpace c = true) : isNumberUnit c = false := by
  simp only [isSpace, Bool.or_eq_true, decide_eq_true_eq] at h
  obtain ((rfl | rfl) | rfl) | rfl := h <;> decide

theorem ends_blanks (b : Blanks) {rest : JString} (h : Ends rest) : Ends (b.1 ++ rest) := by
  obtain ⟨text, htext⟩ := b
  match text, htext with
  | [], _ => exact h
  | c :: _, htext => exact ends_cons (isNumberUnit_of_isSpace (htext c List.mem_cons_self)) _

theorem Ends.stops {rest : JString} (h : Ends rest) :
    rest.takeWhile isNumberUnit = [] ∧ rest.dropWhile isNumberUnit = rest := by
  match rest, h with
  | [], _ => exact ⟨rfl, rfl⟩
  | c :: rest, h =>
      have hc : ¬ isNumberUnit c = true := by simp [h c rfl]
      exact ⟨List.takeWhile_cons_of_neg hc, List.dropWhile_cons_of_neg hc⟩

theorem skip_blanks (b : Blanks) {rest : JString} (h : Begins rest) (pos : ℕ) :
    skipWhitespace ⟨b.1 ++ rest, pos⟩ = .ok () ⟨rest, pos + b.1.length⟩ := Reader.skip_run b.2 h pos

theorem expect_cons (c : UInt16) (rest : JString) (pos : ℕ) : expect c ⟨c :: rest, pos⟩ = .ok () ⟨rest, pos + 1⟩ := by
  have hne : ¬ c ≠ c := fun h => h rfl
  rw [expect, bind_apply, next, Reader.next_cons]
  dsimp only
  rw [if_neg hne]
  rfl

/-! ### Strings -/

theorem shortEscape_of_mem {e c : UInt16} (h : (e, c) ∈ shortEscapes) : shortEscape e = some c := by
  have hall : (shortEscapes.all fun p => shortEscape p.1 = some p.2) = true := by decide
  exact of_decide_eq_true (List.all_eq_true.mp hall (e, c) h)

theorem characterDigit_of_hexValue {c : UInt16} {n : ℕ} (h : hexValue c = some n) :
    characterDigit c = some n ∧ c ≠ unit '-' ∧ c ≠ unit '+' ∧ n < 16 := by
  have hall : ∀ k < 103, (hexValue (UInt16.ofNat k)).all fun m =>
      characterDigit (UInt16.ofNat k) = some m && UInt16.ofNat k ≠ unit '-' && UInt16.ofNat k ≠ unit '+' && m < 16 := by
    decide +kernel
  have hsmall : c.toNat < 103 := by
    by_contra hlarge
    have hbig : ∀ d : UInt16, d.toNat < 103 → ¬ c ≤ d := fun d hd hle => hlarge (lt_of_le_of_lt hle hd)
    rw [hexValue, if_neg fun hc => hbig _ (by decide) hc.2, if_neg fun hc => hbig _ (by decide) hc.2,
      if_neg fun hc => hbig _ (by decide) hc.2] at h
    cases h
  have hc := hall c.toNat hsmall
  rw [UInt16.ofNat_toNat, h, Option.all_some] at hc
  simpa [and_assoc] using hc

/-- Four hexadecimal digits are read as `Integer.parseInt` reads them. -/
theorem parseInt16_hex {a b c d : UInt16} {i j k l : ℕ} (ha : hexValue a = some i) (hb : hexValue b = some j)
    (hc : hexValue c = some k) (hd : hexValue d = some l) :
    parseInt16 a [b, c, d] = some (Int.ofNat (((i * 16 + j) * 16 + k) * 16 + l)) := by
  obtain ⟨ha, hminus, hplus, -⟩ := characterDigit_of_hexValue ha
  rw [parseInt16, if_neg hminus, if_neg hplus]
  simp only [parseDigits, ha, (characterDigit_of_hexValue hb).1, (characterDigit_of_hexValue hc).1,
    (characterDigit_of_hexValue hd).1, Option.bind_some, Option.map_some, Nat.zero_mul, Nat.zero_add]

/-- A code unit of a string is no quote and no backslash, so the loop takes it as it is. -/
theorem stringLoop_plain {c : UInt16} (hquote : c ≠ unit '"') (hescape : c ≠ unit '\\') (out rest : JString) (pos : ℕ) :
    stringLoop out (c :: rest) pos = stringLoop (out ++ [c]) rest (pos + 1) := by
  rw [stringLoop.eq_def]
  dsimp only
  rw [if_neg hquote, if_pos hescape]

theorem stringLoop_short {e u : UInt16} (h : shortEscape e = some u) (out rest : JString) (pos : ℕ) :
    stringLoop out (unit '\\' :: e :: rest) pos = stringLoop (out ++ [u]) rest (pos + 2) := by
  have hquote : unit '\\' ≠ unit '"' := by decide
  have hescape : ¬ unit '\\' ≠ unit '\\' := fun hne => hne rfl
  rw [stringLoop.eq_def]
  dsimp only
  rw [if_neg hquote, if_neg hescape, h]

theorem stringLoop_unicode {a b c d : UInt16} {n : Int} (h : parseInt16 a [b, c, d] = some n) (out rest : JString) (pos : ℕ) :
    stringLoop out (unit '\\' :: unit 'u' :: a :: b :: c :: d :: rest) pos =
      stringLoop (out ++ [UInt16.ofInt n]) rest (pos + 6) := by
  have hquote : unit '\\' ≠ unit '"' := by decide
  have hescape : ¬ unit '\\' ≠ unit '\\' := fun hne => hne rfl
  have hshort : shortEscape (unit 'u') = none := by decide
  rw [stringLoop.eq_def]
  dsimp only
  rw [if_neg hquote, if_neg hescape, hshort]
  dsimp only
  rw [if_pos rfl, h]

theorem stringLoop_quote (out rest : JString) (pos : ℕ) :
    stringLoop out (unit '"' :: rest) pos = .ok out ⟨rest, pos + 1⟩ := by
  rw [stringLoop.eq_def]
  rfl

/-- What is read between two quotes. -/
theorem stringLoop_chars {text s : JString} (h : Chars text s) (out rest : JString) (pos : ℕ) :
    stringLoop out (text ++ unit '"' :: rest) pos = .ok (out ++ s) ⟨rest, pos + text.length + 1⟩ := by
  induction h generalizing out pos with
  | nil =>
      rw [List.append_nil]
      exact stringLoop_quote out rest pos
  | @plain c text s hcontrol hquote hescape _ ih =>
      rw [List.cons_append, stringLoop_plain hquote hescape, ih, List.append_assoc, List.length_cons]
      congr 2
      omega
  | @short e c text s h _ ih =>
      rw [List.cons_append, List.cons_append, stringLoop_short (shortEscape_of_mem h), ih, List.append_assoc]
      simp only [List.length_cons]
      congr 2
      omega
  | @unicode a b c d i j k l text s ha hb hc hd _ ih =>
      have hofInt : UInt16.ofInt (Int.ofNat (((i * 16 + j) * 16 + k) * 16 + l)) =
          UInt16.ofNat (((i * 16 + j) * 16 + k) * 16 + l) := by
        obtain ⟨-, -, -, hi⟩ := characterDigit_of_hexValue ha
        obtain ⟨-, -, -, hj⟩ := characterDigit_of_hexValue hb
        obtain ⟨-, -, -, hk⟩ := characterDigit_of_hexValue hc
        obtain ⟨-, -, -, hl⟩ := characterDigit_of_hexValue hd
        have hsmall : (Int.ofNat (((i * 16 + j) * 16 + k) * 16 + l) % 2 ^ 16).toNat = ((i * 16 + j) * 16 + k) * 16 + l := by
          have hcast : Int.ofNat (((i * 16 + j) * 16 + k) * 16 + l) = (((i * 16 + j) * 16 + k) * 16 + l : ℕ) := rfl
          rw [hcast]
          omega
        rw [UInt16.ofInt, hsmall]
      simp only [List.cons_append]
      rw [stringLoop_unicode (parseInt16_hex ha hb hc hd), ih, List.append_assoc, hofInt]
      simp only [List.length_cons]
      congr 2
      omega

theorem string_text (q : Quoted) (rest : JString) (pos : ℕ) :
    string ⟨q.text ++ rest, pos⟩ = .ok q.value ⟨rest, pos + q.text.length⟩ := by
  have hsplit : q.text ++ rest = unit '"' :: (q.chars ++ unit '"' :: rest) := by simp [Quoted.text]
  have hloop := stringLoop_chars q.denotes [] rest (pos + 1)
  rw [string, bind_apply, hsplit, expect_cons]
  show stringLoop [] (q.chars ++ unit '"' :: rest) (pos + 1) = _
  rw [hloop, List.nil_append, Quoted.text]
  simp only [List.length_cons, List.length_append, List.length_nil]
  congr 2
  omega

/-! ### Numbers -/

/-- `number` passes over the number symbols and converts them. -/
theorem number_eq (c : Cursor UInt16) :
    (number : Parser (Value J)) c =
      convert c.pos (c.rest.takeWhile isNumberUnit) ((c.rest.takeWhile isNumberUnit).any isFractional)
        ⟨c.rest.dropWhile isNumberUnit, c.pos + (c.rest.takeWhile isNumberUnit).length⟩ := by
  obtain ⟨rest, pos⟩ := c
  match rest with
  | [] =>
      show convert pos ([].take (pos - pos)) _ _ = _
      rw [List.take_nil]
      rfl
  | u :: t =>
      have hpeek : peek ⟨u :: t, pos⟩ = .ok u ⟨u :: t, pos⟩ := rfl
      have htake : ∀ l : JString, l.take (l.takeWhile isNumberUnit).length = l.takeWhile isNumberUnit := fun l =>
        (List.prefix_iff_eq_take.mp (List.takeWhile_prefix _)).symm
      rw [number, bind_apply, get_apply]
      dsimp only
      rw [bind_apply, hpeek]
      dsimp only
      by_cases hsign : u = unit '-' ∨ u = unit '+'
      · -- a sign is a number symbol, and no fraction
        have hunit : isNumberUnit u = true ∧ isFractional u = false := by
          obtain rfl | rfl := hsign <;> decide
        rw [if_pos hsign, bind_apply, next, Reader.next_cons, List.takeWhile_cons_of_pos hunit.1,
          List.dropWhile_cons_of_pos hunit.1, List.any_cons, hunit.2, Bool.false_or]
        show convert pos ((u :: t).take (pos + 1 + (t.takeWhile isNumberUnit).length - pos))
          ((t.take (pos + 1 + (t.takeWhile isNumberUnit).length - (pos + 1))).any isFractional)
          ⟨t.dropWhile isNumberUnit, pos + 1 + (t.takeWhile isNumberUnit).length⟩ = _
        have hall : pos + 1 + (t.takeWhile isNumberUnit).length - pos = (t.takeWhile isNumberUnit).length + 1 := by omega
        have hloop : pos + 1 + (t.takeWhile isNumberUnit).length - (pos + 1) = (t.takeWhile isNumberUnit).length := by omega
        have hend : pos + 1 + (t.takeWhile isNumberUnit).length = pos + (u :: t.takeWhile isNumberUnit).length := by
          rw [List.length_cons]
          omega
        rw [hall, hloop, List.take_succ_cons, htake, hend]
      · rw [if_neg hsign]
        show convert pos ((u :: t).take (pos + ((u :: t).takeWhile isNumberUnit).length - pos))
          (((u :: t).take (pos + ((u :: t).takeWhile isNumberUnit).length - pos)).any isFractional)
          ⟨(u :: t).dropWhile isNumberUnit, pos + ((u :: t).takeWhile isNumberUnit).length⟩ = _
        rw [Nat.add_sub_cancel_left, htake]

theorem digitUnit_spec {d : ℕ} (hd : d < 10) :
    isDigit (digitUnit d) = true ∧ isFractional (digitUnit d) = false ∧ digitUnit d ≠ unit '-' ∧ digitUnit d ≠ unit '+' ∧
      (digitUnit d).toNat - 48 = d := by
  have hall : ∀ d < 10, isDigit (digitUnit d) = true ∧ isFractional (digitUnit d) = false ∧ digitUnit d ≠ unit '-' ∧
      digitUnit d ≠ unit '+' ∧ (digitUnit d).toNat - 48 = d := by decide
  exact hall d hd

theorem foldl_digitUnit {ds : List ℕ} (hds : ∀ d ∈ ds, d < 10) (n : ℕ) :
    (ds.map digitUnit).foldl (fun n c => n * 10 + (c.toNat - 48)) n = ds.foldl (fun n d => n * 10 + d) n := by
  induction ds generalizing n with
  | nil => rfl
  | cons d ds ih =>
      obtain ⟨hd, hds⟩ := List.forall_mem_cons.mp hds
      rw [List.map_cons, List.foldl_cons, List.foldl_cons, (digitUnit_spec hd).2.2.2.2, ih hds]

theorem all_isDigit {ds : List ℕ} (hds : ∀ d ∈ ds, d < 10) : (ds.map digitUnit).all isDigit = true := by
  rw [List.all_eq_true]
  intro c hc
  obtain ⟨d, hd, rfl⟩ := List.mem_map.mp hc
  exact (digitUnit_spec (hds d hd)).1

/-- `Long.parseLong` gives the integer that is written. -/
theorem parseLong_text (n : Numeral) : parseLong n.text = some n.value := by
  have hbounds : -2 ^ 63 ≤ n.value.toInt ∧ n.value.toInt < 2 ^ 63 := ⟨n.value.le_toInt, n.value.toInt_lt⟩
  have hne : n.digits.map digitUnit ≠ [] := fun hnil => n.some_digit (List.map_eq_nil_iff.mp hnil)
  have hdenotes := n.denotes
  have hmagnitude := foldl_digitUnit n.digit 0
  rw [← magnitude] at hmagnitude
  rw [parseLong, Numeral.text]
  cases hminus : n.minus with
  | true =>
      rw [hminus, if_pos rfl] at hdenotes
      simp only [if_true, List.singleton_append, List.head?_cons, List.tail_cons, true_or, hmagnitude, ← hdenotes,
        all_isDigit n.digit]
      rw [if_pos ⟨hne, trivial, hbounds⟩, Int64.ofInt_toInt]
  | false =>
      rw [hminus, if_neg Bool.false_ne_true] at hdenotes
      have hhead : (n.digits.map digitUnit).head? ≠ some (unit '-') ∧ (n.digits.map digitUnit).head? ≠ some (unit '+') := by
        have hall := n.digit
        cases hds : n.digits with
        | nil => exact absurd hds n.some_digit
        | cons d ds =>
            rw [hds] at hall
            obtain ⟨-, -, hsign, hplus, -⟩ := digitUnit_spec (hall d List.mem_cons_self)
            exact ⟨fun h => hsign (Option.some.inj h), fun h => hplus (Option.some.inj h)⟩
      simp only [Bool.false_eq_true, if_false, List.nil_append, hhead.1, hhead.2, or_self, hmagnitude, ← hdenotes,
        all_isDigit n.digit]
      rw [if_pos ⟨hne, trivial, hbounds⟩, Int64.ofInt_toInt]

theorem numeral_units (n : Numeral) : ∀ c ∈ n.text, isNumberUnit c = true ∧ isFractional c = false := by
  intro c hc
  rw [Numeral.text] at hc
  obtain hsign | hdigit := List.mem_append.mp hc
  · split_ifs at hsign
    · rw [List.mem_singleton.mp hsign]
      decide
    · cases hsign
  · obtain ⟨d, hd, rfl⟩ := List.mem_map.mp hdigit
    obtain ⟨hdigit, hfractional, -⟩ := digitUnit_spec (n.digit d hd)
    exact ⟨by rw [isNumberUnit, hdigit]; rfl, hfractional⟩

theorem number_text (n : Numeral) {rest : JString} (hrest : Ends rest) (pos : ℕ) :
    number ⟨n.text ++ rest, pos⟩ = .ok (.long n.value : Value J) ⟨rest, pos + n.text.length⟩ := by
  have hstop := Ends.stops hrest
  have hwhole : n.text.any isFractional = false := List.any_eq_false.mpr fun c hc => by
    rw [(numeral_units n c hc).2]
    exact Bool.false_ne_true
  have hnonempty : n.text.isEmpty = false := by
    rw [List.isEmpty_eq_false_iff, Numeral.text]
    exact fun hnil => n.some_digit (List.map_eq_nil_iff.mp (List.append_eq_nil_iff.mp hnil).2)
  have hunits : ∀ c ∈ n.text, isNumberUnit c = true := fun c hc => (numeral_units n c hc).1
  rw [number_eq]
  dsimp only
  rw [List.takeWhile_append_of_pos hunits, List.dropWhile_append_of_pos hunits, hstop.1, hstop.2, List.append_nil, hwhole,
    convert, hnonempty, parseLong_text]
  rfl

/-! ## Values -/

/-- `value` looks at the first code unit. -/
theorem value_cons (fuel : ℕ) (c : UInt16) (t : JString) (pos : ℕ) :
    (value (fuel + 1) : Parser (Value J)) ⟨c :: t, pos⟩ =
      (if c = unit '\x7b' then object (value fuel) fuel
        else if c = unit '[' then array (value fuel) fuel
        else if c = unit '"' then (do return .string (← string))
        else if c = unit 't' then literal (units "true") (.bool true)
        else if c = unit 'f' then literal (units "false") (.bool false)
        else if c = unit 'n' then literal (units "null") .null
        else number) ⟨c :: t, pos⟩ := rfl

theorem literal_text (text rest : JString) (v : Value J) (pos : ℕ) :
    literal text v ⟨text ++ rest, pos⟩ = .ok v ⟨rest, pos + text.length⟩ := by
  have hstarts : text.isPrefixOf (text ++ rest) = true := List.isPrefixOf_iff_prefix.mpr (List.prefix_append ..)
  rw [literal]
  dsimp only
  rw [if_pos hstarts, List.drop_left]

theorem peek_cons (c : UInt16) (t : JString) (pos : ℕ) : peek ⟨c :: t, pos⟩ = .ok c ⟨c :: t, pos⟩ := rfl

/-- What an integer begins with. -/
theorem numeral_head (n : Numeral) : ∃ c t, n.text = c :: t ∧ (c = unit '-' ∨ ∃ d < 10, c = digitUnit d) := by
  rw [Numeral.text]
  cases n.minus with
  | true => exact ⟨unit '-', _, rfl, .inl rfl⟩
  | false =>
      have hsome := n.some_digit
      have hall := n.digit
      cases hds : n.digits with
      | nil => exact absurd hds hsome
      | cons d ds =>
          rw [hds] at hall
          exact ⟨digitUnit d, _, rfl, .inr ⟨d, hall d List.mem_cons_self, rfl⟩⟩

/-- The code units `value` tells the other kinds of values by. -/
def valueUnits : List UInt16 := [unit '\x7b', unit '[', unit '"', unit 't', unit 'f', unit 'n']

/-- The code units that end an array or an object. -/
def closers : List UInt16 := [unit ']', unit '\x7d']

theorem numeral_unit {c : UInt16} (h : c = unit '-' ∨ ∃ d < 10, c = digitUnit d) :
    c ∉ valueUnits ∧ isBlank c = false ∧ c ∉ closers := by
  obtain rfl | ⟨d, hd, rfl⟩ := h
  · decide
  · have hall : ∀ d < 10, digitUnit d ∉ valueUnits ∧ isBlank (digitUnit d) = false ∧ digitUnit d ∉ closers := by decide
    exact hall d hd

theorem doc_head (d : Doc) : ∃ c t, d.text = c :: t ∧ isBlank c = false ∧ c ∉ closers := by
  cases d with
  | null => exact ⟨unit 'n', units "ull", rfl, by decide, by decide⟩
  | bool b =>
      cases b with
      | true => exact ⟨unit 't', units "rue", rfl, by decide, by decide⟩
      | false => exact ⟨unit 'f', units "alse", rfl, by decide, by decide⟩
  | number n =>
      obtain ⟨c, t, htext, hc⟩ := numeral_head n
      exact ⟨c, t, htext, (numeral_unit hc).2⟩
  | string q => exact ⟨unit '"', _, rfl, by decide, by decide⟩
  | emptyArray blank => exact ⟨unit '[', _, rfl, by decide, by decide⟩
  | array items => exact ⟨unit '[', _, rfl, by decide, by decide⟩
  | emptyObject blank => exact ⟨unit '\x7b', _, rfl, by decide, by decide⟩
  | object members => exact ⟨unit '\x7b', _, rfl, by decide, by decide⟩

theorem begins_doc (d : Doc) (rest : JString) : Begins (d.text ++ rest) := by
  obtain ⟨c, t, htext, hblank, -⟩ := doc_head d
  rw [htext]
  exact begins_cons hblank _

section Loops

variable {item : Parser (Value J)} {v : Value J} {text rest : JString} {pos stop : ℕ}

/-- One turn of the loop of `array`, up to the symbol behind the item. -/
theorem elements_turn {before after : Blanks} {c : UInt16} (hbegins : Begins (text ++ (after.1 ++ c :: rest)))
    (hitem : item ⟨text ++ (after.1 ++ c :: rest), pos + before.1.length⟩ = .ok v ⟨after.1 ++ c :: rest, stop⟩)
    (hc : isBlank c = false) (n : ℕ) (out : List (Value J)) :
    elements item (n + 1) out ⟨before.1 ++ (text ++ (after.1 ++ c :: rest)), pos⟩ =
      (if c = unit ']' then return .list (out ++ [v])
        else do
          if c ≠ unit ',' then throw (.expectedCommaOrBracket ((← get).pos - 1))
          elements item n (out ++ [v]) : Parser (Value J)) ⟨rest, stop + after.1.length + 1⟩ := by
  rw [elements, bind_apply, skip_blanks before hbegins]
  dsimp only
  rw [bind_apply, hitem]
  dsimp only
  rw [bind_apply, skip_blanks after (begins_cons hc rest)]
  dsimp only
  rw [bind_apply, next, Reader.next_cons]

/-- One turn of the loop of `object`. -/
theorem members_turn {before colonBefore colonAfter after : Blanks} {key : Quoted} {c : UInt16}
    (hbegins : Begins (text ++ (after.1 ++ c :: rest)))
    (hitem : item ⟨text ++ (after.1 ++ c :: rest),
      pos + before.1.length + key.text.length + colonBefore.1.length + 1 + colonAfter.1.length⟩ =
        .ok v ⟨after.1 ++ c :: rest, stop⟩)
    (hc : isBlank c = false) (n : ℕ) (out : List (JString × Value J)) :
    members item (n + 1) out
        ⟨before.1 ++ (key.text ++ (colonBefore.1 ++ unit ':' :: (colonAfter.1 ++ (text ++ (after.1 ++ c :: rest))))), pos⟩ =
      (if c = unit '\x7d' then return .map (put out key.value v)
        else do
          if c ≠ unit ',' then throw (.expectedCommaOrBrace ((← get).pos - 1))
          members item n (put out key.value v) : Parser (Value J)) ⟨rest, stop + after.1.length + 1⟩ := by
  have hkey : Begins (key.text ++ (colonBefore.1 ++ unit ':' :: (colonAfter.1 ++ (text ++ (after.1 ++ c :: rest))))) :=
    begins_cons (by decide) _
  rw [members, bind_apply, skip_blanks before hkey]
  dsimp only
  rw [bind_apply, string_text]
  dsimp only
  rw [bind_apply, skip_blanks colonBefore (begins_cons (by decide) _)]
  dsimp only
  rw [bind_apply, expect_cons]
  dsimp only
  rw [bind_apply, skip_blanks colonAfter hbegins]
  dsimp only
  rw [bind_apply, hitem]
  dsimp only
  rw [bind_apply, skip_blanks after (begins_cons hc rest)]
  dsimp only
  rw [bind_apply, next, Reader.next_cons]

/-- The loops begin with white space, wherever it ends. -/
theorem elements_blanks (b : Blanks) {t : JString} (ht : Begins t) (fuel : ℕ) (out : List (Value J)) :
    elements item (fuel + 1) out ⟨b.1 ++ t, pos⟩ = elements item (fuel + 1) out ⟨t, pos + b.1.length⟩ := by
  have hagain := skip_blanks noBlanks ht (pos + b.1.length)
  rw [elements, bind_apply, bind_apply, skip_blanks b ht]
  rw [noBlanks, List.nil_append, List.length_nil, Nat.add_zero] at hagain
  rw [hagain]

theorem members_blanks (b : Blanks) {t : JString} (ht : Begins t) (fuel : ℕ) (out : List (JString × Value J)) :
    members item (fuel + 1) out ⟨b.1 ++ t, pos⟩ = members item (fuel + 1) out ⟨t, pos + b.1.length⟩ := by
  have hagain := skip_blanks noBlanks ht (pos + b.1.length)
  rw [members, bind_apply, bind_apply, skip_blanks b ht]
  rw [noBlanks, List.nil_append, List.length_nil, Nat.add_zero] at hagain
  rw [hagain]

/-- An array that does not close at once. -/
theorem array_open (b : Blanks) {c : UInt16} (hc : isBlank c = false ∧ c ∉ closers) (t : JString) (fuel : ℕ) :
    array item (fuel + 1) ⟨unit '[' :: (b.1 ++ c :: t), pos⟩ = elements item (fuel + 1) [] ⟨b.1 ++ c :: t, pos + 1⟩ := by
  have hclose : c ≠ unit ']' := fun h => hc.2 (by rw [h]; decide)
  rw [elements_blanks b (begins_cons hc.1 t), array, bind_apply, expect_cons]
  dsimp only
  rw [bind_apply, skip_blanks b (begins_cons hc.1 t)]
  dsimp only
  rw [bind_apply, peek_cons]
  dsimp only
  rw [if_neg hclose]

theorem object_open (b : Blanks) {c : UInt16} (hc : isBlank c = false ∧ c ∉ closers) (t : JString) (fuel : ℕ) :
    object item (fuel + 1) ⟨unit '\x7b' :: (b.1 ++ c :: t), pos⟩ = members item (fuel + 1) [] ⟨b.1 ++ c :: t, pos + 1⟩ := by
  have hclose : c ≠ unit '\x7d' := fun h => hc.2 (by rw [h]; decide)
  rw [members_blanks b (begins_cons hc.1 t), object, bind_apply, expect_cons]
  dsimp only
  rw [bind_apply, skip_blanks b (begins_cons hc.1 t)]
  dsimp only
  rw [bind_apply, peek_cons]
  dsimp only
  rw [if_neg hclose]

theorem array_close (b : Blanks) (rest : JString) (fuel : ℕ) :
    array item fuel ⟨unit '[' :: (b.1 ++ unit ']' :: rest), pos⟩ = .ok (.list []) ⟨rest, pos + 1 + b.1.length + 1⟩ := by
  rw [array, bind_apply, expect_cons]
  dsimp only
  rw [bind_apply, skip_blanks b (begins_cons (by decide) _)]
  dsimp only
  rw [bind_apply, peek_cons]
  dsimp only
  rw [if_pos rfl]
  rfl

theorem object_close (b : Blanks) (rest : JString) (fuel : ℕ) :
    object item fuel ⟨unit '\x7b' :: (b.1 ++ unit '\x7d' :: rest), pos⟩ = .ok (.map []) ⟨rest, pos + 1 + b.1.length + 1⟩ := by
  rw [object, bind_apply, expect_cons]
  dsimp only
  rw [bind_apply, skip_blanks b (begins_cons (by decide) _)]
  dsimp only
  rw [bind_apply, peek_cons]
  dsimp only
  rw [if_pos rfl]
  rfl

end Loops

/-- What an array that is not empty begins with. -/
theorem items_head (items : Items) : ∃ (b : Blanks) (c : UInt16) (t : JString), items.text = b.1 ++ c :: t ∧
    isBlank c = false ∧ c ∉ closers := by
  cases items with
  | last before item after =>
      obtain ⟨c, t, htext, hc⟩ := doc_head item
      exact ⟨before, c, t ++ after.1, by rw [Items.text, htext]; simp, hc⟩
  | cons before item after rest =>
      obtain ⟨c, t, htext, hc⟩ := doc_head item
      exact ⟨before, c, t ++ after.1 ++ unit ',' :: rest.text, by rw [Items.text, htext]; simp, hc⟩

theorem members_head (parts : Members) : ∃ (b : Blanks) (c : UInt16) (t : JString), parts.text = b.1 ++ c :: t ∧
    isBlank c = false ∧ c ∉ closers := by
  have hquote : isBlank (unit '"') = false ∧ unit '"' ∉ closers := by decide
  cases parts with
  | last before key colonBefore colonAfter item after =>
      exact ⟨before, unit '"', _, by rw [Members.text, Quoted.text]; simp; rfl, hquote⟩
  | cons before key colonBefore colonAfter item after rest =>
      exact ⟨before, unit '"', _, by rw [Members.text, Quoted.text]; simp; rfl, hquote⟩

/-! ## Documents -/

mutual

/-- The parser reads a document to its end. -/
theorem reads_doc : ∀ (d : Doc) (fuel : ℕ) (rest : JString) (pos : ℕ), d.text.length < fuel → Ends rest →
    value fuel ⟨d.text ++ rest, pos⟩ = .ok (d.value : Value J) ⟨rest, pos + d.text.length⟩
  | .null, fuel + 1, rest, pos, _, _ => literal_text (units "null") rest .null pos
  | .bool true, fuel + 1, rest, pos, _, _ => literal_text (units "true") rest (.bool true) pos
  | .bool false, fuel + 1, rest, pos, _, _ => literal_text (units "false") rest (.bool false) pos
  | .number n, fuel + 1, rest, pos, _, hrest => by
      obtain ⟨c, t, htext, hc⟩ := numeral_head n
      have hother := (numeral_unit hc).1
      simp only [valueUnits, List.mem_cons, List.not_mem_nil, or_false, not_or] at hother
      obtain ⟨hobject, harray, hstring, htrue, hfalse, hnull⟩ := hother
      have hnumber := number_text (J := J) n hrest pos
      rw [Doc.text]
      rw [htext, List.cons_append] at hnumber ⊢
      rw [value_cons, if_neg hobject, if_neg harray, if_neg hstring, if_neg htrue, if_neg hfalse, if_neg hnull, hnumber]
      rfl
  | .string q, fuel + 1, rest, pos, _, _ => by
      have hstring := string_text q rest pos
      show (do return Value.string (← string) : Parser (Value J)) ⟨q.text ++ rest, pos⟩ = _
      rw [bind_apply, hstring]
      rfl
  | .emptyArray blank, fuel + 1, rest, pos, _, _ => by
      have hsplit : (Doc.emptyArray blank).text ++ rest = unit '[' :: (blank.1 ++ unit ']' :: rest) := by simp [Doc.text]
      rw [hsplit, value_cons, if_neg (by decide), if_pos rfl, array_close, Doc.value, Doc.text]
      simp only [List.length_cons, List.length_append, List.length_nil]
      congr 2
      omega
  | .array items, fuel + 1, rest, pos, hfuel, _ => by
      obtain ⟨b, c, t, hitems, hc⟩ := items_head items
      have hlength : (Doc.array items).text.length = items.text.length + 2 := by simp [Doc.text]
      obtain ⟨fuel, rfl⟩ : ∃ k, fuel = k + 1 := ⟨fuel - 1, by omega⟩
      have h := reads_items items (fuel + 1) (fuel + 1) [] rest (pos + 1) (by omega) (by omega)
      have hinner : items.text ++ unit ']' :: rest = b.1 ++ c :: (t ++ unit ']' :: rest) := by rw [hitems]; simp
      have hsplit : (Doc.array items).text ++ rest = unit '[' :: (items.text ++ unit ']' :: rest) := by simp [Doc.text]
      rw [hinner] at h
      rw [hsplit, hinner, value_cons, if_neg (by decide), if_pos rfl, array_open b hc, h, hlength, Doc.value, List.nil_append]
      congr 2
      omega
  | .emptyObject blank, fuel + 1, rest, pos, _, _ => by
      have hsplit : (Doc.emptyObject blank).text ++ rest = unit '\x7b' :: (blank.1 ++ unit '\x7d' :: rest) := by
        simp [Doc.text]
      rw [hsplit, value_cons, if_pos rfl, object_close, Doc.value, Doc.text]
      simp only [List.length_cons, List.length_append, List.length_nil]
      congr 2
      omega
  | .object parts, fuel + 1, rest, pos, hfuel, _ => by
      obtain ⟨b, c, t, hparts, hc⟩ := members_head parts
      have hlength : (Doc.object parts).text.length = parts.text.length + 2 := by simp [Doc.text]
      obtain ⟨fuel, rfl⟩ : ∃ k, fuel = k + 1 := ⟨fuel - 1, by omega⟩
      have h := reads_members parts (fuel + 1) (fuel + 1) [] rest (pos + 1) (by omega) (by omega)
      have hinner : parts.text ++ unit '\x7d' :: rest = b.1 ++ c :: (t ++ unit '\x7d' :: rest) := by rw [hparts]; simp
      have hsplit : (Doc.object parts).text ++ rest = unit '\x7b' :: (parts.text ++ unit '\x7d' :: rest) := by
        simp [Doc.text]
      rw [hinner] at h
      rw [hsplit, hinner, value_cons, if_pos rfl, object_open b hc, h, hlength, Doc.value]
      congr 2
      omega

theorem reads_items : ∀ (items : Items) (fuel n : ℕ) (out : List (Value J)) (rest : JString) (pos : ℕ),
    items.text.length < fuel → items.text.length < n →
    elements (value fuel) n out ⟨items.text ++ unit ']' :: rest, pos⟩ =
      .ok (.list (out ++ items.values)) ⟨rest, pos + items.text.length + 1⟩
  | .last before item after, fuel, n + 1, out, rest, pos, hfuel, _ => by
      have hlength : (Items.last before item after).text.length =
          before.1.length + item.text.length + after.1.length := by
        simp [Items.text]
        omega
      have hsplit : (Items.last before item after).text ++ unit ']' :: rest =
          before.1 ++ (item.text ++ (after.1 ++ unit ']' :: rest)) := by simp [Items.text]
      have hitem := reads_doc item fuel (after.1 ++ unit ']' :: rest) (pos + before.1.length) (by omega)
        (ends_blanks after (ends_cons (by decide) rest))
      rw [hsplit, elements_turn (begins_doc item _) hitem (by decide), if_pos rfl, hlength, Items.values]
      show EStateM.Result.ok _ (Cursor.mk _ _) = .ok _ (Cursor.mk _ _)
      congr 2
      omega
  | .cons before item after more, fuel, n + 1, out, rest, pos, hfuel, hn => by
      have hlength : (Items.cons before item after more).text.length =
          before.1.length + item.text.length + after.1.length + more.text.length + 1 := by
        simp [Items.text]
        omega
      have hsplit : (Items.cons before item after more).text ++ unit ']' :: rest =
          before.1 ++ (item.text ++ (after.1 ++ unit ',' :: (more.text ++ unit ']' :: rest))) := by simp [Items.text]
      have hitem := reads_doc item fuel (after.1 ++ unit ',' :: (more.text ++ unit ']' :: rest)) (pos + before.1.length)
        (by omega) (ends_blanks after (ends_cons (by decide) _))
      have hmore := reads_items more fuel n (out ++ [item.value]) rest
        (pos + before.1.length + item.text.length + after.1.length + 1) (by omega) (by omega)
      rw [hsplit, elements_turn (begins_doc item _) hitem (by decide), if_neg (by decide), if_neg (by decide)]
      dsimp only
      rw [hmore, hlength, Items.values, List.append_assoc]
      congr 2
      omega

theorem reads_members : ∀ (parts : Members) (fuel n : ℕ) (out : List (JString × Value J)) (rest : JString) (pos : ℕ),
    parts.text.length < fuel → parts.text.length < n →
    members (value fuel) n out ⟨parts.text ++ unit '\x7d' :: rest, pos⟩ =
      .ok (.map (parts.entries.foldl (fun m e => put m e.1 e.2) out)) ⟨rest, pos + parts.text.length + 1⟩
  | .last before key colonBefore colonAfter item after, fuel, n + 1, out, rest, pos, hfuel, _ => by
      have hlength : (Members.last before key colonBefore colonAfter item after).text.length =
          before.1.length + key.text.length + colonBefore.1.length + 1 + colonAfter.1.length + item.text.length +
            after.1.length := by
        simp [Members.text]
        omega
      have hsplit : (Members.last before key colonBefore colonAfter item after).text ++ unit '\x7d' :: rest =
          before.1 ++ (key.text ++ (colonBefore.1 ++ unit ':' :: (colonAfter.1 ++
            (item.text ++ (after.1 ++ unit '\x7d' :: rest))))) := by simp [Members.text]
      have hitem := reads_doc item fuel (after.1 ++ unit '\x7d' :: rest)
        (pos + before.1.length + key.text.length + colonBefore.1.length + 1 + colonAfter.1.length) (by omega)
        (ends_blanks after (ends_cons (by decide) rest))
      rw [hsplit, members_turn (begins_doc item _) hitem (by decide), if_pos rfl, hlength, Members.entries]
      show EStateM.Result.ok _ (Cursor.mk _ _) = .ok _ (Cursor.mk _ _)
      congr 2
      omega
  | .cons before key colonBefore colonAfter item after more, fuel, n + 1, out, rest, pos, hfuel, hn => by
      have hlength : (Members.cons before key colonBefore colonAfter item after more).text.length =
          before.1.length + key.text.length + colonBefore.1.length + 1 + colonAfter.1.length + item.text.length +
            after.1.length + more.text.length + 1 := by
        simp [Members.text]
        omega
      have hsplit : (Members.cons before key colonBefore colonAfter item after more).text ++ unit '\x7d' :: rest =
          before.1 ++ (key.text ++ (colonBefore.1 ++ unit ':' :: (colonAfter.1 ++
            (item.text ++ (after.1 ++ unit ',' :: (more.text ++ unit '\x7d' :: rest)))))) := by simp [Members.text]
      have hitem := reads_doc item fuel (after.1 ++ unit ',' :: (more.text ++ unit '\x7d' :: rest))
        (pos + before.1.length + key.text.length + colonBefore.1.length + 1 + colonAfter.1.length) (by omega)
        (ends_blanks after (ends_cons (by decide) _))
      have hmore := reads_members more fuel n (put out key.value item.value) rest
        (pos + before.1.length + key.text.length + colonBefore.1.length + 1 + colonAfter.1.length + item.text.length +
          after.1.length + 1) (by omega) (by omega)
      rw [hsplit, members_turn (begins_doc item _) hitem (by decide), if_neg (by decide), if_neg (by decide)]
      dsimp only
      rw [hmore, hlength, Members.entries, List.foldl_cons]
      congr 2
      omega

end

/-! ## Texts -/

/-- A document with the blanks around it. -/
structure DocText where
  before : Blanks
  doc : Doc
  after : Blanks

def DocText.text (t : DocText) : JString := t.before.1 ++ t.doc.text ++ t.after.1

/-- Every document is parsed to the value it denotes. -/
theorem parse_doc (t : DocText) : parse t.text = .ok (t.doc.value : Value J) := by
  have hlength : t.text.length = t.before.1.length + t.doc.text.length + t.after.1.length := by
    simp [DocText.text]
    omega
  have hsplit : t.text = t.before.1 ++ (t.doc.text ++ t.after.1) := by simp [DocText.text]
  have hends : Ends t.after.1 := by
    have hnil := @ends_blanks t.after [] fun c hc => by cases hc
    rwa [List.append_nil] at hnil
  have hdoc := reads_doc (J := J) t.doc (t.text.length + 1) t.after.1 (0 + t.before.1.length) (by omega) hends
  have hskip := @skip_blanks t.after [] (fun c hc => by cases hc) (0 + t.before.1.length + t.doc.text.length)
  rw [List.append_nil] at hskip
  have hbefore : skipWhitespace ⟨t.text, 0⟩ = .ok () ⟨t.doc.text ++ t.after.1, 0 + t.before.1.length⟩ := by
    rw [hsplit]
    exact skip_blanks t.before (begins_doc t.doc _) 0
  have hdocument : (document (t.text.length + 1) : Parser (Value J)) ⟨t.text, 0⟩ =
      .ok t.doc.value ⟨[], 0 + t.before.1.length + t.doc.text.length + t.after.1.length⟩ := by
    rw [document, bind_apply, hbefore]
    dsimp only
    rw [bind_apply, hdoc]
    dsimp only
    rw [bind_apply, hskip]
    rfl
  rw [parse, hdocument]

/-- What is written is parsed to the value that was written. -/
theorem parse_write {v : Value J} (h : Plain v) : parse (write v) = .ok v := by
  obtain ⟨d, htext, hvalue⟩ := exists_doc v h
  have hparse := parse_doc (J := J) ⟨noBlanks, d, noBlanks⟩
  rw [DocText.text, noBlanks, List.nil_append, List.append_nil, htext, hvalue] at hparse
  exact hparse

end Havuz.Json
