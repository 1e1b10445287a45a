import Mathlib.Data.List.Basic

/-!
# Text and bytes

The string operations of the Rust standard library that the SQL code relies on. A `str` is modelled
by the list of its characters; a byte that is compared with an ASCII literal is the character itself,
since no byte of a multi-byte UTF-8 sequence is ASCII.
-/

namespace Havuz

/-- SQL text: the characters of a Rust `str`. -/
abbrev Text := List Char

instance Text.lawfulBEq : LawfulBEq Text := inferInstance

/-- Raw bytes, as a message body carries them. -/
abbrev Bytes := List UInt8

/-- An ASCII byte literal, `b'Q'` in the source. -/
def byte (c : Char) : UInt8 := c.toUInt8

/-! ## Characters -/

/-- `char::is_whitespace`: the Unicode `White_Space` property. -/
def isWhitespace (c : Char) : Bool :=
  let n := c.toNat
  (9 ≤ n && n ≤ 13) || n == 0x20 || n == 0x85 || n == 0xA0 || n == 0x1680 ||
    (0x2000 ≤ n && n ≤ 0x200A) || n == 0x2028 || n == 0x2029 || n == 0x202F || n == 0x205F ||
    n == 0x3000

/-- `char::is_ascii_alphabetic`. -/
def isAsciiAlphabetic (c : Char) : Bool :=
  ('a' ≤ c && c ≤ 'z') || ('A' ≤ c && c ≤ 'Z')

/-- `char::is_ascii_digit`. -/
def isAsciiDigit (c : Char) : Bool := '0' ≤ c && c ≤ '9'

/-- `char::is_ascii_alphanumeric`. -/
def isAsciiAlphanumeric (c : Char) : Bool := isAsciiAlphabetic c || isAsciiDigit c

/-! ## Strings -/

namespace Text

/-- `str::to_ascii_uppercase`. -/
def toAsciiUppercase (t : Text) : Text := t.map Char.toUpper

/-- `str::to_ascii_lowercase`. -/
def toAsciiLowercase (t : Text) : Text := t.map Char.toLower

/-- `str::eq_ignore_ascii_case`. -/
def eqIgnoreAsciiCase (a b : Text) : Bool := toAsciiLowercase a == toAsciiLowercase b

/-- `str::trim_start`. -/
def trimStart (t : Text) : Text := t.dropWhile isWhitespace

/-- `str::trim_end`. -/
def trimEnd (t : Text) : Text := t.reverse.dropWhile isWhitespace |>.reverse

/-- `str::trim`. -/
def trim (t : Text) : Text := trimEnd (trimStart t)

/-- `str::strip_prefix`. -/
def stripPrefix (pre t : Text) : Option Text :=
  if pre.isPrefixOf t then some (t.drop pre.length) else none

/-- `str::strip_suffix` for a single character. -/
def stripSuffixChar (c : Char) (t : Text) : Text :=
  match t.reverse with
  | d :: rest => if d = c then rest.reverse else t
  | [] => t

/-- `str::contains`. -/
def contains (t needle : Text) : Bool := t.tails.any needle.isPrefixOf

/-- The text after the first occurrence of `needle`, `None` if there is none. -/
def afterFirst (needle : Text) : Text → Option Text
  | [] => if needle.isEmpty then some [] else none
  | c :: t =>
      if needle.isPrefixOf (c :: t) then some ((c :: t).drop needle.length)
      else afterFirst needle t

/-- The words of a text, given the word read so far. -/
def wordsAux : Text → Text → List Text
  | cur, [] => if cur.isEmpty then [] else [cur.reverse]
  | cur, c :: t =>
      if isWhitespace c then
        if cur.isEmpty then wordsAux [] t else cur.reverse :: wordsAux [] t
      else wordsAux (c :: cur) t

/-- `str::split_whitespace`. -/
def splitWhitespace (t : Text) : List Text := wordsAux [] t

/-- `[&str]::join`. -/
def join (sep : Text) : List Text → Text
  | [] => []
  | [t] => t
  | t :: ts => t ++ sep ++ join sep ts

/-- `str::split_once` for a single character. -/
def splitOnce (c : Char) (t : Text) : Option (Text × Text) :=
  if List.contains t c then some (t.takeWhile (· ≠ c), (t.dropWhile (· ≠ c)).drop 1) else none

/-- `str::as_bytes`. -/
def asBytes (t : Text) : Bytes := t.flatMap String.utf8EncodeChar

/-- `byte as char` for every byte of the text: how `strip_literals` copies what it keeps. -/
def asLatin1 (t : Text) : Text := (asBytes t).map fun b => Char.ofNat b.toNat

end Text

/-! ## UTF-8 -/

/-- A continuation byte. -/
def isContinuation (b : UInt8) : Bool := 0x80 ≤ b && b ≤ 0xBF

/-- The character a lead byte and its continuation bytes denote. -/
def utf8Char (lead mask : UInt8) (rest : Bytes) : Char :=
  Char.ofNat (rest.foldl (fun n b => n * 64 + (b.toNat - 0x80)) (lead.toNat - mask.toNat))

/-- One step of UTF-8 decoding: the character that starts with `b`, `none` when the sequence is
invalid, and how many of the following bytes belong to it. An invalid sequence takes its maximal
well-formed prefix with it, as `from_utf8_lossy` does. -/
def utf8Step (b : UInt8) (rest : Bytes) : Option Char × Nat :=
  if b < 0x80 then (some (Char.ofNat b.toNat), 0)
  else
    -- The second byte has a narrower range after four lead bytes: overlong forms, surrogates and
    -- values beyond U+10FFFF are excluded there.
    let second (lo hi : UInt8) : Bool := match rest with
      | c :: _ => lo ≤ c && c ≤ hi
      | [] => false
    let follows (k : Nat) : Bool := match rest.drop k with
      | c :: _ => isContinuation c
      | [] => false
    let three (lo hi : UInt8) : Option Char × Nat :=
      if !second lo hi then (none, 0)
      else if !follows 1 then (none, 1)
      else (some (utf8Char b 0xE0 (rest.take 2)), 2)
    let four (lo hi : UInt8) : Option Char × Nat :=
      if !second lo hi then (none, 0)
      else if !follows 1 then (none, 1)
      else if !follows 2 then (none, 2)
      else (some (utf8Char b 0xF0 (rest.take 3)), 3)
    if 0xC2 ≤ b && b ≤ 0xDF then
      if follows 0 then (some (utf8Char b 0xC0 (rest.take 1)), 1) else (none, 0)
    else if b == 0xE0 then three 0xA0 0xBF
    else if b == 0xED then three 0x80 0x9F
    else if 0xE1 ≤ b && b ≤ 0xEF then three 0x80 0xBF
    else if b == 0xF0 then four 0x90 0xBF
    else if 0xF1 ≤ b && b ≤ 0xF3 then four 0x80 0xBF
    else if b == 0xF4 then four 0x80 0x8F
    else (none, 0)

/-- Decode with a bound on the number of steps; every step consumes a byte. -/
def utf8Decode : Nat → Bytes → List (Option Char)
  | 0, _ => []
  | _, [] => []
  | fuel + 1, b :: rest =>
      (utf8Step b rest).1 :: utf8Decode fuel (rest.drop (utf8Step b rest).2)

/-- `String::from_utf8_lossy`. -/
def fromUtf8Lossy (bs : Bytes) : Text :=
  (utf8Decode bs.length bs).map fun c => c.getD (Char.ofNat 0xFFFD)

/-- Whether `std::str::from_utf8` accepts the bytes. -/
def isUtf8 (bs : Bytes) : Bool := (utf8Decode bs.length bs).all Option.isSome

/-- Plain ASCII, an accented letter and a truncated sequence. -/
example : fromUtf8Lossy [0x41, 0xC3, 0xA9, 0xE2, 0x82] = ['A', 'é', Char.ofNat 0xFFFD] := by decide

end Havuz
