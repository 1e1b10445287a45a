import Mathlib.Data.List.Basic

/-!
# Base64

`Engine` is what a protocol relies on: decoding undoes encoding, and an encoding is made of the alphabet
and the padding sign. `standard` is the engine of RFC 4648 section 4, padded and canonical.
-/

namespace Havuz.Lib.Base64

/-- A letter, a digit, `+`, `/` or `=`. -/
def isSign (c : Char) : Bool := c.isAlphanum || c == '+' || c == '/' || c == '='

/-- An encoder and its decoder. -/
structure Engine where
  encode : List UInt8 → List Char
  decode : List Char → Option (List UInt8)
  decode_encode : ∀ bytes, decode (encode bytes) = some bytes
  alphabet : ∀ bytes, ∀ c ∈ encode bytes, isSign c = true

/-- A character outside the alphabet is not in an encoding. -/
theorem Engine.not_mem_encode (engine : Engine) {c : Char} (hc : isSign c = false) (bytes : List UInt8) :
    c ∉ engine.encode bytes := by
  intro hmem
  rw [engine.alphabet bytes c hmem] at hc
  cases hc

/-! ## The standard engine -/

/-- The sign of a value below 64. -/
def sign (n : ℕ) : Char :=
  if n < 26 then Char.ofNat ('A'.toNat + n)
  else if n < 52 then Char.ofNat ('a'.toNat + (n - 26))
  else if n < 62 then Char.ofNat ('0'.toNat + (n - 52))
  else if n = 62 then '+'
  else '/'

/-- The value of a sign, none for the padding. -/
def value (c : Char) : Option ℕ :=
  if c.isUpper then some (c.toNat - 'A'.toNat)
  else if c.isLower then some (c.toNat - 'a'.toNat + 26)
  else if c.isDigit then some (c.toNat - '0'.toNat + 52)
  else if c = '+' then some 62
  else if c = '/' then some 63
  else none

def encode : List UInt8 → List Char
  | a :: b :: c :: rest =>
      sign (a.toNat / 4) :: sign (a.toNat % 4 * 16 + b.toNat / 16) :: sign (b.toNat % 16 * 4 + c.toNat / 64) ::
        sign (c.toNat % 64) :: encode rest
  | [a, b] => [sign (a.toNat / 4), sign (a.toNat % 4 * 16 + b.toNat / 16), sign (b.toNat % 16 * 4), '=']
  | [a] => [sign (a.toNat / 4), sign (a.toNat % 4 * 16), '=', '=']
  | [] => []

/-- The bytes of four values. -/
def first (w x : ℕ) : UInt8 := .ofNat (w * 4 + x / 16)
def second (x y : ℕ) : UInt8 := .ofNat (x % 16 * 16 + y / 4)
def third (y z : ℕ) : UInt8 := .ofNat (y % 4 * 64 + z)

/-- Padding ends the text, and the bits it cuts off are zero. -/
def decode : List Char → Option (List UInt8)
  | [] => some []
  | w :: x :: y :: z :: rest =>
      match value w, value x, value y, value z with
      | some w, some x, some y, some z => (decode rest).map fun bytes => first w x :: second x y :: third y z :: bytes
      | some w, some x, some y, none =>
          if z = '=' ∧ rest = [] ∧ y % 4 = 0 then some [first w x, second x y] else none
      | some w, some x, none, none =>
          if y = '=' ∧ z = '=' ∧ rest = [] ∧ x % 16 = 0 then some [first w x] else none
      | _, _, _, _ => none
  | _ => none

theorem value_sign : ∀ n < 64, value (sign n) = some n := by decide

theorem isSign_sign : ∀ n < 64, isSign (sign n) = true := by decide

theorem value_padding : value '=' = none := by decide

/-! ### The values of a byte's parts -/

theorem first_of (a b : UInt8) : first (a.toNat / 4) (a.toNat % 4 * 16 + b.toNat / 16) = a := by
  have hb := b.toNat_lt
  have hsum : a.toNat / 4 * 4 + (a.toNat % 4 * 16 + b.toNat / 16) / 16 = a.toNat := by omega
  rw [first, hsum, UInt8.ofNat_toNat]

theorem first_of_last (a : UInt8) : first (a.toNat / 4) (a.toNat % 4 * 16) = a := by
  have hsum : a.toNat / 4 * 4 + a.toNat % 4 * 16 / 16 = a.toNat := by omega
  rw [first, hsum, UInt8.ofNat_toNat]

theorem second_of (a b c : UInt8) :
    second (a.toNat % 4 * 16 + b.toNat / 16) (b.toNat % 16 * 4 + c.toNat / 64) = b := by
  have hb := b.toNat_lt
  have hc := c.toNat_lt
  have hsum : (a.toNat % 4 * 16 + b.toNat / 16) % 16 * 16 + (b.toNat % 16 * 4 + c.toNat / 64) / 4 = b.toNat := by
    omega
  rw [second, hsum, UInt8.ofNat_toNat]

theorem second_of_last (a b : UInt8) :
    second (a.toNat % 4 * 16 + b.toNat / 16) (b.toNat % 16 * 4) = b := by
  have hb := b.toNat_lt
  have hsum : (a.toNat % 4 * 16 + b.toNat / 16) % 16 * 16 + b.toNat % 16 * 4 / 4 = b.toNat := by omega
  rw [second, hsum, UInt8.ofNat_toNat]

theorem third_of (b c : UInt8) : third (b.toNat % 16 * 4 + c.toNat / 64) (c.toNat % 64) = c := by
  have hc := c.toNat_lt
  have hsum : (b.toNat % 16 * 4 + c.toNat / 64) % 4 * 64 + c.toNat % 64 = c.toNat := by omega
  rw [third, hsum, UInt8.ofNat_toNat]

/-! ### The laws -/

theorem decode_encode (bytes : List UInt8) : decode (encode bytes) = some bytes := by
  induction bytes using encode.induct with
  | case1 a b c rest ih =>
      have ha := a.toNat_lt
      have hb := b.toNat_lt
      have hc := c.toNat_lt
      rw [encode, decode, value_sign _ (by omega), value_sign _ (by omega), value_sign _ (by omega),
        value_sign _ (by omega), ih]
      simp only [Option.map_some, first_of, second_of, third_of]
  | case2 a b =>
      have ha := a.toNat_lt
      have hb := b.toNat_lt
      rw [encode, decode, value_sign _ (by omega), value_sign _ (by omega), value_sign _ (by omega), value_padding]
      simp only [first_of, second_of_last]
      exact if_pos ⟨trivial, trivial, by omega⟩
  | case3 a =>
      have ha := a.toNat_lt
      rw [encode, decode, value_sign _ (by omega), value_sign _ (by omega), value_padding]
      simp only [first_of_last]
      exact if_pos ⟨trivial, trivial, trivial, by omega⟩
  | case4 => rfl

theorem alphabet (bytes : List UInt8) : ∀ c ∈ encode bytes, isSign c = true := by
  induction bytes using encode.induct with
  | case1 a b c rest ih =>
      have ha := a.toNat_lt
      have hb := b.toNat_lt
      have hc := c.toNat_lt
      simp only [encode, List.forall_mem_cons]
      exact ⟨isSign_sign _ (by omega), isSign_sign _ (by omega), isSign_sign _ (by omega),
        isSign_sign _ (by omega), ih⟩
  | case2 a b =>
      have ha := a.toNat_lt
      have hb := b.toNat_lt
      simp only [encode, List.forall_mem_cons]
      exact ⟨isSign_sign _ (by omega), isSign_sign _ (by omega), isSign_sign _ (by omega), by decide, by simp⟩
  | case3 a =>
      have ha := a.toNat_lt
      simp only [encode, List.forall_mem_cons]
      exact ⟨isSign_sign _ (by omega), isSign_sign _ (by omega), by decide, by decide, by simp⟩
  | case4 => simp [encode]

/-- RFC 4648, with padding. -/
def standard : Engine := ⟨encode, decode, decode_encode, alphabet⟩

/-- The header of a client that does not bind the channel. -/
example : standard.encode [0x6E, 0x2C, 0x2C] = "biws".toList := by decide

end Havuz.Lib.Base64
