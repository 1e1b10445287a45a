import Havuz.Json.Model
import Mathlib.Data.Nat.Digits.Lemmas

/-!
# Documents

The grammar of RFC 8259, for the kinds of values the pipe carries: a document is built from its parts, and has a text and
the value it denotes. Blanks are allowed where the grammar allows them, a string may be written with any escapes, and a
number is an integer of 64 bits. Where a key occurs twice, the last value counts.
-/

namespace Havuz.Json

/-! ## Tokens -/

/-- A code unit of `ws`. -/
def isSpace (c : UInt16) : Bool := c = 0x20 || c = 0x09 || c = 0x0A || c = 0x0D

/-- White space between two tokens. -/
abbrev Blanks := { text : JString // ∀ c ∈ text, isSpace c = true }

/-- The letter of an escape, and what it stands for. -/
def shortEscapes : List (UInt16 × UInt16) :=
  [(unit '"', 0x22), (unit '\\', 0x5C), (unit '/', 0x2F), (unit 'b', 0x08), (unit 'f', 0x0C), (unit 'n', 0x0A),
    (unit 'r', 0x0D), (unit 't', 0x09)]

/-- The value of a hexadecimal digit, in either case. -/
def hexValue (c : UInt16) : Option ℕ :=
  if unit '0' ≤ c ∧ c ≤ unit '9' then some (c.toNat - 0x30)
  else if unit 'A' ≤ c ∧ c ≤ unit 'F' then some (c.toNat - 0x41 + 10)
  else if unit 'a' ≤ c ∧ c ≤ unit 'f' then some (c.toNat - 0x61 + 10)
  else none

/-- The text between two quotes, and the string it denotes. -/
inductive Chars : JString → JString → Prop where
  | nil : Chars [] []
  | plain {c : UInt16} {text s : JString} (hcontrol : 0x20 ≤ c) (hquote : c ≠ unit '"') (hescape : c ≠ unit '\\')
      (rest : Chars text s) : Chars (c :: text) (c :: s)
  | short {e c : UInt16} {text s : JString} (h : (e, c) ∈ shortEscapes) (rest : Chars text s) :
      Chars (unit '\\' :: e :: text) (c :: s)
  | unicode {a b c d : UInt16} {i j k l : ℕ} {text s : JString} (ha : hexValue a = some i) (hb : hexValue b = some j)
      (hc : hexValue c = some k) (hd : hexValue d = some l) (rest : Chars text s) :
      Chars (unit '\\' :: unit 'u' :: a :: b :: c :: d :: text) (UInt16.ofNat (((i * 16 + j) * 16 + k) * 16 + l) :: s)

/-- A string of a document. -/
structure Quoted where
  chars : JString
  value : JString
  denotes : Chars chars value

def Quoted.text (q : Quoted) : JString := unit '"' :: q.chars ++ [unit '"']

/-- What decimal digits denote, the highest one first. -/
def magnitude (digits : List ℕ) : ℕ := digits.foldl (fun n d => n * 10 + d) 0

/-- An integer of a document. -/
structure Numeral where
  minus : Bool
  digits : List ℕ
  value : Int64
  digit : ∀ d ∈ digits, d < 10
  some_digit : digits ≠ []
  /-- No zero stands in front of another digit. -/
  leading : digits.head? = some 0 → digits = [0]
  denotes : value.toInt = if minus then -(magnitude digits : Int) else magnitude digits

def Numeral.text (n : Numeral) : JString := (if n.minus then [unit '-'] else []) ++ n.digits.map digitUnit

/-! ## Values -/

mutual

inductive Doc where
  | null
  | bool (b : Bool)
  | number (n : Numeral)
  | string (q : Quoted)
  | emptyArray (blank : Blanks)
  | array (items : Items)
  | emptyObject (blank : Blanks)
  | object (members : Members)

/-- What stands between the brackets of an array that is not empty. -/
inductive Items where
  | last (before : Blanks) (item : Doc) (after : Blanks)
  | cons (before : Blanks) (item : Doc) (after : Blanks) (rest : Items)

/-- What stands between the braces of an object that is not empty. -/
inductive Members where
  | last (before : Blanks) (key : Quoted) (colonBefore colonAfter : Blanks) (item : Doc) (after : Blanks)
  | cons (before : Blanks) (key : Quoted) (colonBefore colonAfter : Blanks) (item : Doc) (after : Blanks) (rest : Members)

end

mutual

def Doc.text : Doc → JString
  | .null => units "null"
  | .bool b => if b then units "true" else units "false"
  | .number n => n.text
  | .string q => q.text
  | .emptyArray blank => unit '[' :: blank.1 ++ [unit ']']
  | .array items => unit '[' :: items.text ++ [unit ']']
  | .emptyObject blank => unit '\x7b' :: blank.1 ++ [unit '\x7d']
  | .object members => unit '\x7b' :: members.text ++ [unit '\x7d']

def Items.text : Items → JString
  | .last before item after => before.1 ++ item.text ++ after.1
  | .cons before item after rest => before.1 ++ item.text ++ after.1 ++ unit ',' :: rest.text

def Members.text : Members → JString
  | .last before key colonBefore colonAfter item after =>
      before.1 ++ key.text ++ colonBefore.1 ++ unit ':' :: colonAfter.1 ++ item.text ++ after.1
  | .cons before key colonBefore colonAfter item after rest =>
      before.1 ++ key.text ++ colonBefore.1 ++ unit ':' :: colonAfter.1 ++ item.text ++ after.1 ++ unit ',' :: rest.text

end

variable {J : Doubles}

mutual

def Doc.value : Doc → Value J
  | .null => .null
  | .bool b => .bool b
  | .number n => .long n.value
  | .string q => .string q.value
  | .emptyArray _ => .list []
  | .array items => .list items.values
  | .emptyObject _ => .map []
  | .object members => .map (members.entries.foldl (fun m e => put m e.1 e.2) [])

def Items.values : Items → List (Value J)
  | .last _ item _ => [item.value]
  | .cons _ item _ rest => item.value :: rest.values

def Members.entries : Members → List (JString × Value J)
  | .last _ key _ _ item _ => [(key.value, item.value)]
  | .cons _ key _ _ item _ rest => (key.value, item.value) :: rest.entries

end

/-! ## The kinds of values that are written and read back -/

mutual

/-- Built from null, booleans, integers, strings, lists and maps, whose keys are distinct. -/
def Plain : Value J → Prop
  | .null => True
  | .bool _ => True
  | .long _ => True
  | .double _ => False
  | .string _ => True
  | .list items => PlainItems items
  | .map entries => (entries.map Prod.fst).Nodup ∧ PlainEntries entries

def PlainItems : List (Value J) → Prop
  | [] => True
  | item :: rest => Plain item ∧ PlainItems rest

def PlainEntries : List (JString × Value J) → Prop
  | [] => True
  | (_, v) :: rest => Plain v ∧ PlainEntries rest

end

/-! ## What is written is a document -/

theorem digitUnit_toNat {d : ℕ} (hd : d < 10) : (digitUnit d).toNat = 48 + d := by
  have hall : ∀ d < 10, (digitUnit d).toNat = 48 + d := by decide
  exact hall d hd

/-- A digit is read as it was written. -/
theorem hexValue_hexDigit {n : ℕ} (hn : n < 16) : hexValue (hexDigit n) = some n := by
  have hall : ∀ n < 16, hexValue (hexDigit n) = some n := by decide
  exact hall n hn

theorem magnitude_append (ds : List ℕ) (d : ℕ) : magnitude (ds ++ [d]) = magnitude ds * 10 + d := by
  rw [magnitude, List.foldl_append]
  rfl

theorem magnitude_reverse (ds : List ℕ) : magnitude ds.reverse = Nat.ofDigits 10 ds := by
  induction ds with
  | nil => rfl
  | cons d ds ih =>
      rw [List.reverse_cons, magnitude_append, ih, Nat.ofDigits_cons]
      omega

theorem magnitude_decimals (n : ℕ) : magnitude (decimals n) = n := by
  rw [decimals]
  split_ifs with hzero
  · rw [hzero]
    rfl
  · rw [magnitude_reverse, Nat.ofDigits_digits]

/-- `Long.toString` writes an integer. -/
def Numeral.ofLong (n : Int64) : Numeral where
  minus := n.toInt < 0
  digits := decimals n.toInt.natAbs
  value := n
  digit := by
    intro d hd
    rw [decimals] at hd
    split_ifs at hd with hzero
    · rw [List.mem_singleton.mp hd]
      omega
    · exact Nat.digits_lt_base (by omega) (List.mem_reverse.mp hd)
  some_digit := by
    rw [decimals]
    split_ifs with hzero
    · simp
    · exact fun hnil => hzero (Nat.digits_eq_nil_iff_eq_zero.mp (List.reverse_eq_nil_iff.mp hnil))
  leading := by
    rw [decimals]
    split_ifs with hzero
    · exact fun _ => rfl
    · intro hhead
      rw [List.head?_reverse, List.getLast?_eq_some_getLast (Nat.digits_ne_nil_iff_ne_zero.mpr hzero), Option.some.injEq]
        at hhead
      exact absurd hhead (Nat.getLast_digit_ne_zero 10 hzero)
  denotes := by
    rw [magnitude_decimals]
    split_ifs with hneg
    · have : n.toInt < 0 := by simpa using hneg
      omega
    · have : ¬ n.toInt < 0 := by simpa using hneg
      omega

theorem Numeral.ofLong_text (n : Int64) : (Numeral.ofLong n).text = longToString n := by
  rw [Numeral.text, longToString]
  simp [Numeral.ofLong]

/-- A code unit as it is written denotes itself. -/
theorem Chars.written (c : UInt16) {text s : JString} (rest : Chars text s) : Chars (writeUnit c ++ text) (c :: s) := by
  rw [writeUnit]
  split_ifs with hquote hescape hn hr ht hb hf hcontrol
  · subst hquote
    exact .short (by decide) rest
  · subst hescape
    exact .short (by decide) rest
  · subst hn
    exact .short (by decide) rest
  · subst hr
    exact .short (by decide) rest
  · subst ht
    exact .short (by decide) rest
  · subst hb
    exact .short (by decide) rest
  · subst hf
    exact .short (by decide) rest
  · have hsize : c.toNat < 2 ^ 16 := c.toNat_lt
    have hvalue : ((c.toNat / 16 ^ 3 % 16 * 16 + c.toNat / 16 ^ 2 % 16) * 16 + c.toNat / 16 % 16) * 16 + c.toNat % 16 =
        c.toNat := by
      omega
    have hdigit : ∀ n, hexValue (hexDigit (n % 16)) = some (n % 16) := fun n => hexValue_hexDigit (Nat.mod_lt n (by omega))
    have hunicode := Chars.unicode (hdigit (c.toNat / 16 ^ 3)) (hdigit (c.toNat / 16 ^ 2)) (hdigit (c.toNat / 16))
      (hdigit c.toNat) rest
    rwa [hvalue, UInt16.ofNat_toNat] at hunicode
  · exact .plain (UInt16.not_lt.mp hcontrol) hquote hescape rest

def Quoted.ofString (s : JString) : Quoted where
  chars := s.flatMap writeUnit
  value := s
  denotes := by
    induction s with
    | nil => exact .nil
    | cons c s ih => exact Chars.written c ih

theorem Quoted.ofString_text (s : JString) : (Quoted.ofString s).text = writeString s := rfl

/-- No white space. -/
def noBlanks : Blanks := ⟨[], fun _ h => absurd h List.not_mem_nil⟩

/-- A key that is not there is put behind the others. -/
theorem put_of_not_mem {m : List (JString × Value J)} {key : JString} (h : key ∉ m.map Prod.fst) (v : Value J) :
    put m key v = m ++ [(key, v)] := by
  rw [put, if_neg]
  rw [List.any_eq_true]
  rintro ⟨e, he, hkey⟩
  exact h (List.mem_map.mpr ⟨e, he, of_decide_eq_true hkey⟩)

/-- Distinct keys are put one behind the other. -/
theorem foldl_put {m entries : List (JString × Value J)} (h : ((m ++ entries).map Prod.fst).Nodup) :
    entries.foldl (fun m e => put m e.1 e.2) m = m ++ entries := by
  induction entries generalizing m with
  | nil => rw [List.foldl_nil, List.append_nil]
  | cons e entries ih =>
      have hnew : e.1 ∉ m.map Prod.fst := by
        rw [List.map_append, List.map_cons] at h
        exact fun hmem => (List.nodup_append.mp h).2.2 _ hmem _ List.mem_cons_self rfl
      rw [List.foldl_cons, put_of_not_mem hnew, ih, List.append_assoc]
      · rfl
      · rwa [List.append_assoc]

/-- Behind the first item a comma is written in front. -/
theorem writeItems_false {items : List (Value J)} (hne : items ≠ []) :
    writeItems false items = unit ',' :: writeItems true items := by
  match items, hne with
  | item :: rest, _ => rfl

theorem writeEntries_false {entries : List (JString × Value J)} (hne : entries ≠ []) :
    writeEntries false entries = unit ',' :: writeEntries true entries := by
  match entries, hne with
  | (key, v) :: rest, _ => rfl

mutual

/-- What is written is a document of the value. -/
theorem exists_doc : ∀ v : Value J, Plain v → ∃ d : Doc, d.text = write v ∧ d.value = v
  | .null, _ => ⟨.null, rfl, rfl⟩
  | .bool b, _ => ⟨.bool b, rfl, rfl⟩
  | .long n, _ => ⟨.number (.ofLong n), Numeral.ofLong_text n, rfl⟩
  | .double _, h => absurd h id
  | .string s, _ => ⟨.string (.ofString s), rfl, rfl⟩
  | .list items, h => by
      by_cases hempty : items = []
      · exact ⟨.emptyArray noBlanks, by rw [hempty]; rfl, by rw [hempty]; rfl⟩
      · obtain ⟨parts, htext, hvalues⟩ := exists_items items h hempty
        exact ⟨.array parts, by rw [Doc.text, htext]; rfl, by rw [Doc.value, hvalues]⟩
  | .map entries, h => by
      by_cases hempty : entries = []
      · exact ⟨.emptyObject noBlanks, by rw [hempty]; rfl, by rw [hempty]; rfl⟩
      · obtain ⟨parts, htext, hentries⟩ := exists_members entries h.2 hempty
        refine ⟨.object parts, by rw [Doc.text, htext]; rfl, ?_⟩
        rw [Doc.value, hentries, foldl_put h.1, List.nil_append]

theorem exists_items : ∀ items : List (Value J), PlainItems items → items ≠ [] →
    ∃ parts : Items, parts.text = writeItems true items ∧ parts.values = items
  | [], _, hne => absurd rfl hne
  | item :: rest, h, _ => by
      obtain ⟨d, htext, hvalue⟩ := exists_doc item h.1
      by_cases hempty : rest = []
      · refine ⟨.last noBlanks d noBlanks, ?_, by rw [Items.values, hvalue, hempty]⟩
        simp [Items.text, noBlanks, htext, hempty, writeItems]
      · obtain ⟨parts, hitems, hvalues⟩ := exists_items rest h.2 hempty
        refine ⟨.cons noBlanks d noBlanks parts, ?_, by rw [Items.values, hvalue, hvalues]⟩
        rw [Items.text, htext, hitems, writeItems, writeItems_false hempty]
        simp [noBlanks]

theorem exists_members : ∀ entries : List (JString × Value J), PlainEntries entries → entries ≠ [] →
    ∃ parts : Members, parts.text = writeEntries true entries ∧ parts.entries = entries
  | [], _, hne => absurd rfl hne
  | (key, v) :: rest, h, _ => by
      obtain ⟨d, htext, hvalue⟩ := exists_doc v h.1
      by_cases hempty : rest = []
      · refine ⟨.last noBlanks (.ofString key) noBlanks noBlanks d noBlanks, ?_, by
          rw [Members.entries, hvalue, hempty]; rfl⟩
        simp [Members.text, noBlanks, htext, hempty, writeEntries, Quoted.ofString_text]
      · obtain ⟨parts, hmembers, hentries⟩ := exists_members rest h.2 hempty
        refine ⟨.cons noBlanks (.ofString key) noBlanks noBlanks d noBlanks parts, ?_, by
          rw [Members.entries, hvalue, hentries]; rfl⟩
        rw [Members.text, htext, hmembers, writeEntries, writeEntries_false hempty]
        simp [noBlanks, Quoted.ofString_text]

end

end Havuz.Json
