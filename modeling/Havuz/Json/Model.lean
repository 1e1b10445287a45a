import Havuz.Lib.Reader
import Mathlib.Data.Nat.Digits.Defs

/-!
# JSON, as the agent reads and writes it

Reference: `Json.java` of the agent, and `respond` and `emit` of `Agent.java`.

A Java string is a list of UTF-16 code units, whatever they are. What a `double` is and how its text is read and written
is the library's matter and stands here as `Doubles`; a `Map` is a `LinkedHashMap`, so its entries have an order. The
parser's `pos` is a cursor into the input. `value` calls itself for every member and element, each of which is shorter,
and `fuel` bounds how often; the length of the input is enough.
-/

namespace Havuz.Json

open Lib

/-- A Java `String`. -/
abbrev JString := List UInt16

/-- The code unit of an ASCII character. -/
def unit (c : Char) : UInt16 := UInt16.ofNat c.toNat

/-- The code units of an ASCII text. -/
def units (s : String) : JString := s.toList.map unit

/-- `Double`: which texts `Double.parseDouble` takes, and what `Double.toString` gives. -/
structure Doubles where
  Double : Type
  parseDouble : JString → Option Double
  isFinite : Double → Bool
  toString : Double → JString

inductive Value (J : Doubles) where
  | null
  | bool (b : Bool)
  | long (n : Int64)
  | double (d : J.Double)
  | string (s : JString)
  | list (items : List (Value J))
  | map (entries : List (JString × Value J))

variable {J : Doubles}

/-! ## Writing -/

/-- A hexadecimal digit, in lower case. -/
def hexDigit (n : ℕ) : UInt16 := if n < 10 then unit '0' + UInt16.ofNat n else unit 'a' + UInt16.ofNat (n - 10)

/-- `String.format` with `%04x`. -/
def format04x (c : UInt16) : JString :=
  [hexDigit (c.toNat / 16 ^ 3 % 16), hexDigit (c.toNat / 16 ^ 2 % 16), hexDigit (c.toNat / 16 % 16),
    hexDigit (c.toNat % 16)]

/-- One code unit of `writeString`. -/
def writeUnit (c : UInt16) : JString :=
  if c = unit '"' then units "\\\""
  else if c = unit '\\' then units "\\\\"
  else if c = 10 then units "\\n"
  else if c = 13 then units "\\r"
  else if c = 9 then units "\\t"
  else if c = 8 then units "\\b"
  else if c = 12 then units "\\f"
  else if c < 0x20 then units "\\u" ++ format04x c
  else [c]

def writeString (s : JString) : JString := unit '"' :: s.flatMap writeUnit ++ [unit '"']

/-- The decimal digits of a number, the highest one first. -/
def decimals (n : ℕ) : List ℕ := if n = 0 then [0] else (Nat.digits 10 n).reverse

/-- The code unit of a decimal digit. -/
def digitUnit (d : ℕ) : UInt16 := unit '0' + UInt16.ofNat d

/-- `Long.toString`. -/
def longToString (n : Int64) : JString :=
  (if n.toInt < 0 then [unit '-'] else []) ++ (decimals n.toInt.natAbs).map digitUnit

mutual

/-- `Json.write`. -/
def write : Value J → JString
  | .null => units "null"
  | .bool b => if b then units "true" else units "false"
  | .long n => longToString n
  -- Infinity and NaN are not JSON.
  | .double d => if J.isFinite d then J.toString d else units "null"
  | .string s => writeString s
  | .list items => unit '[' :: writeItems true items ++ [unit ']']
  | .map entries => unit '\x7b' :: writeEntries true entries ++ [unit '\x7d']

/-- The loop over a list. -/
def writeItems (first : Bool) : List (Value J) → JString
  | [] => []
  | item :: rest => (if first then [] else [unit ',']) ++ write item ++ writeItems false rest

/-- The loop over the entries of a map. -/
def writeEntries (first : Bool) : List (JString × Value J) → JString
  | [] => []
  | (key, v) :: rest =>
      (if first then [] else [unit ',']) ++ writeString key ++ unit ':' :: write v ++ writeEntries false rest

end

/-! ## Reading -/

/-- What is thrown, one for each place that throws. -/
inductive ParseError where
  | trailingContent (offset : ℕ)
  | unexpectedEnd
  | badLiteral (offset : ℕ)
  | expectedCommaOrBrace (offset : ℕ)
  | expectedCommaOrBracket (offset : ℕ)
  | truncatedEscape
  | badEscape (escape : UInt16)
  | expectedValue (offset : ℕ)
  | expected (c : UInt16) (offset : ℕ)
  /-- `NumberFormatException`, of `Integer.parseInt` or `Double.parseDouble`. -/
  | numberFormat (text : JString)
  /-- No error of the code: the fuel did not last. -/
  | exhausted
deriving DecidableEq, Repr

/-- A method of `Parser`. -/
abbrev Parser (α : Type) := Reader ParseError UInt16 α

/-- White space, as `skipWhitespace` knows it. -/
def isBlank (c : UInt16) : Bool := c = unit ' ' || c = 9 || c = 10 || c = 13

def skipWhitespace : Parser Unit := Reader.skip isBlank

def done : Parser Bool := fun c => .ok c.rest.isEmpty c

/-- `peek`: NUL at the end of the input. -/
def peek : Parser UInt16 := fun c => .ok (c.rest.headD 0) c

def next : Parser UInt16 := Reader.next .unexpectedEnd

def expect (expected : UInt16) : Parser Unit := do
  let c ← next
  if c ≠ expected then throw (.expected expected ((← get).pos - 1))

/-- `literal`. -/
def literal (text : JString) (v : Value J) : Parser (Value J) := fun c =>
  if text.isPrefixOf c.rest then .ok v ⟨c.rest.drop text.length, c.pos + text.length⟩
  else .error (.badLiteral c.pos) c

/-- The zeros of the decimal digits that are single code units. -/
def decimalZeros : List ℕ :=
  [0x30, 0x660, 0x6F0, 0x7C0, 0x966, 0x9E6, 0xA66, 0xAE6, 0xB66, 0xBE6, 0xC66, 0xCE6, 0xD66, 0xDE6, 0xE50, 0xED0,
    0xF20, 0x1040, 0x1090, 0x17E0, 0x1810, 0x1946, 0x19D0, 0x1A80, 0x1A90, 0x1B50, 0x1BB0, 0x1C40, 0x1C50, 0xA620,
    0xA8D0, 0xA900, 0xA9D0, 0xA9F0, 0xAA50, 0xABF0, 0xFF10]

/-- The letters of `Character.digit` with radix 16: those of ASCII and their full-width forms. -/
def hexLetters : List ℕ := [0x41, 0x61, 0xFF21, 0xFF41]

/-- `Character.digit` with radix 16. -/
def characterDigit (c : UInt16) : Option ℕ :=
  match decimalZeros.find? fun z => z ≤ c.toNat && c.toNat < z + 10 with
  | some z => some (c.toNat - z)
  | none => (hexLetters.find? fun a => a ≤ c.toNat && c.toNat < a + 6).map fun a => c.toNat - a + 10

/-- The digits of `Integer.parseInt` with radix 16. -/
def parseDigits : ℕ → JString → Option ℕ
  | n, [] => some n
  | n, c :: rest => (characterDigit c).bind fun d => parseDigits (n * 16 + d) rest

/-- `Integer.parseInt` with radix 16, of four code units: a sign may stand in front. -/
def parseInt16 (a : UInt16) (rest : JString) : Option Int :=
  if a = unit '-' then (parseDigits 0 rest).map fun n => -Int.ofNat n
  else if a = unit '+' then (parseDigits 0 rest).map Int.ofNat
  else (parseDigits 0 (a :: rest)).map Int.ofNat

/-- The escapes of one letter. -/
def shortEscape (escape : UInt16) : Option UInt16 :=
  if escape = unit '"' then some (unit '"')
  else if escape = unit '\\' then some (unit '\\')
  else if escape = unit '/' then some (unit '/')
  else if escape = unit 'b' then some 8
  else if escape = unit 'f' then some 12
  else if escape = unit 'n' then some 10
  else if escape = unit 'r' then some 13
  else if escape = unit 't' then some 9
  else none

/-- The loop of `string`, behind the opening quote: what was read, what is left and where it stands. -/
def stringLoop (out : JString) : JString → ℕ → EStateM.Result ParseError (Cursor UInt16) JString
  | [], pos => .error .unexpectedEnd ⟨[], pos⟩
  | c :: rest, pos =>
      if c = unit '"' then .ok out ⟨rest, pos + 1⟩
      else if c ≠ unit '\\' then stringLoop (out ++ [c]) rest (pos + 1)
      else
        match rest with
        | [] => .error .unexpectedEnd ⟨[], pos + 1⟩
        | escape :: rest =>
            match shortEscape escape with
            | some u => stringLoop (out ++ [u]) rest (pos + 2)
            | none =>
                if escape = unit 'u' then
                  match rest with
                  | a :: b :: c :: d :: after =>
                      match parseInt16 a [b, c, d] with
                      -- The cast to `char` keeps the low sixteen bits.
                      | some n => stringLoop (out ++ [UInt16.ofInt n]) after (pos + 6)
                      | none => .error (.numberFormat [a, b, c, d]) ⟨rest, pos + 2⟩
                  | _ => .error .truncatedEscape ⟨rest, pos + 2⟩
                else .error (.badEscape escape) ⟨rest, pos + 2⟩

/-- `string` behind its opening quote. -/
def stringRest : Parser JString := fun c => stringLoop [] c.rest c.pos

def string : Parser JString := do
  expect (unit '"')
  stringRest

/-! ### Numbers -/

def isDigit (c : UInt16) : Bool := unit '0' ≤ c && c ≤ unit '9'

/-- What makes a number a `double`. -/
def isFractional (c : UInt16) : Bool := c = unit '.' || c = unit 'e' || c = unit 'E'

/-- What the loop of `number` passes over. -/
def isNumberUnit (c : UInt16) : Bool := isDigit c || isFractional c || c = unit '+' || c = unit '-'

/-- `Long.parseLong`, of ASCII digits. -/
def parseLong (text : JString) : Option Int64 :=
  let digits := if text.head? = some (unit '-') ∨ text.head? = some (unit '+') then text.tail else text
  let magnitude : ℕ := digits.foldl (fun n c => n * 10 + (c.toNat - 48)) 0
  let n : Int := if text.head? = some (unit '-') then -magnitude else magnitude
  if digits ≠ [] ∧ digits.all isDigit ∧ -2 ^ 63 ≤ n ∧ n < 2 ^ 63 then some (Int64.ofInt n) else none

/-- The text between two cursors, as `substring` gives it. -/
def substring (start stop : Cursor UInt16) : JString := start.rest.take (stop.pos - start.pos)

/-- What `number` makes of the text it passed over. Integers stay integers, and fall through to double beyond the range
of a long. -/
def convert (start : ℕ) (text : JString) (fractional : Bool) : Parser (Value J) :=
  if text.isEmpty then throw (.expectedValue start)
  else
    match if fractional then none else parseLong text with
    | some n => return .long n
    | none =>
        match J.parseDouble text with
        | some d => return .double d
        | none => throw (.numberFormat text)

def number : Parser (Value J) := do
  let start ← get
  let sign ← peek
  if sign = unit '-' ∨ sign = unit '+' then
    let _ ← next
  let loop ← get
  Reader.skip isNumberUnit
  let stop ← get
  convert start.pos (substring start stop) ((substring loop stop).any isFractional)

/-! ### Values -/

/-- `put` of a `LinkedHashMap`: a key that is there keeps its place. -/
def put (m : List (JString × Value J)) (key : JString) (v : Value J) : List (JString × Value J) :=
  if m.any fun e => e.1 = key then m.map fun e => if e.1 = key then (key, v) else e else m ++ [(key, v)]

/-- The loop of `object`. -/
def members (item : Parser (Value J)) : ℕ → List (JString × Value J) → Parser (Value J)
  | 0, _ => throw .exhausted
  | n + 1, out => do
      skipWhitespace
      let key ← string
      skipWhitespace
      expect (unit ':')
      skipWhitespace
      let v ← item
      skipWhitespace
      let c ← next
      if c = unit '\x7d' then return .map (put out key v)
      if c ≠ unit ',' then throw (.expectedCommaOrBrace ((← get).pos - 1))
      members item n (put out key v)

/-- The loop of `array`. -/
def elements (item : Parser (Value J)) : ℕ → List (Value J) → Parser (Value J)
  | 0, _ => throw .exhausted
  | n + 1, out => do
      skipWhitespace
      let v ← item
      skipWhitespace
      let c ← next
      if c = unit ']' then return .list (out ++ [v])
      if c ≠ unit ',' then throw (.expectedCommaOrBracket ((← get).pos - 1))
      elements item n (out ++ [v])

/-- `object`. -/
def object (item : Parser (Value J)) (fuel : ℕ) : Parser (Value J) := do
  expect (unit '\x7b')
  skipWhitespace
  if (← peek) = unit '\x7d' then
    let _ ← next
    return .map []
  members item fuel []

/-- `array`. -/
def array (item : Parser (Value J)) (fuel : ℕ) : Parser (Value J) := do
  expect (unit '[')
  skipWhitespace
  if (← peek) = unit ']' then
    let _ ← next
    return .list []
  elements item fuel []

/-- `value`. -/
def value : ℕ → Parser (Value J)
  | 0 => throw .exhausted
  | fuel + 1 => do
      if ← done then throw .unexpectedEnd
      let c ← peek
      if c = unit '\x7b' then object (value fuel) fuel
      else if c = unit '[' then array (value fuel) fuel
      else if c = unit '"' then return .string (← string)
      else if c = unit 't' then literal (units "true") (.bool true)
      else if c = unit 'f' then literal (units "false") (.bool false)
      else if c = unit 'n' then literal (units "null") .null
      else number

/-- The body of `parse`. -/
def document (fuel : ℕ) : Parser (Value J) := do
  skipWhitespace
  let v ← value fuel
  skipWhitespace
  if !(← done) then throw (.trailingContent (← get).pos)
  return v

/-- `Json.parse`. -/
def parse (input : JString) : Except ParseError (Value J) :=
  match document (input.length + 1) ⟨input, 0⟩ with
  | .ok v _ => .ok v
  | .error e _ => .error e

/-! ## The pipe -/

/-- `respond`: the document of an answer. -/
def response (id : Value J) (result : Option (Value J)) (error : Option (List (JString × Value J))) :
    List (JString × Value J) :=
  [(units "jsonrpc", .string (units "2.0")), (units "id", id),
    match error with
    | some error => (units "error", .map error)
    | none => (units "result", result.getD (.map []))]

/-- `emit`: one document per line. -/
def emit (document : List (JString × Value J)) : JString := write (.map document) ++ [10]

/-- `BufferedReader.readLine`, of all that was written: a line ends at a line feed, a carriage return, or both. -/
def readLines : JString → JString → List JString
  | cur, [] => if cur.isEmpty then [] else [cur]
  | cur, c :: rest =>
      if c = 10 then cur :: readLines [] rest
      else if c = 13 then
        match rest with
        | d :: after => if d = 10 then cur :: readLines [] after else cur :: readLines [] (d :: after)
        | [] => [cur]
      else readLines (cur ++ [c]) rest

end Havuz.Json
