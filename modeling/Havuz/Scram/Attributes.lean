import Mathlib
import Havuz.Lib.Fallible
import Havuz.Text

/-!
# Attribute lists

Reference: `split_gs2` and `field` in `havuz-pg/src/scram.rs`, and the functions of the standard library
that the SCRAM code takes its messages apart with.
-/

namespace Havuz

/-- `Option::ok_or`. -/
def okOr {ε α : Type} (e : ε) : Option α → Except ε α
  | some a => .ok a
  | none => .error e

theorem okOr_eq_ok {ε α : Type} {e : ε} {o : Option α} {a : α} : okOr e o = .ok a ↔ o = some a := by
  cases o <;> simp [okOr]

/-- `std::str::from_utf8`. -/
def fromUtf8 (bytes : Bytes) : Option Text := bytes.toByteArray.utf8Decode?.map Array.toList

@[simp] theorem fromUtf8_asBytes (t : Text) : fromUtf8 t.asBytes = some t := by
  have hdecode : t.asBytes.toByteArray.utf8Decode? = some t.toArray := List.utf8Decode?_utf8Encode
  rw [fromUtf8, hdecode]
  rfl

theorem asBytes_injective {t t' : Text} (h : t.asBytes = t'.asBytes) : t = t' := by
  have hdecoded := congrArg fromUtf8 h
  rw [fromUtf8_asBytes, fromUtf8_asBytes] at hdecoded
  exact Option.some.inj hdecoded

/-- What is decoded is what the bytes encode. -/
theorem asBytes_of_fromUtf8 {bytes : Bytes} {t : Text} (h : fromUtf8 bytes = some t) : t.asBytes = bytes := by
  obtain ⟨chars, hchars, rfl⟩ := Option.map_eq_some_iff.mp h
  have hsome : bytes.toByteArray.utf8Decode?.isSome := by rw [hchars]; rfl
  have hencode := ByteArray.utf8Encode_get_utf8Decode? (h := hsome)
  simp only [hchars, Option.get_some] at hencode
  exact List.toByteArray_inj.mp hencode

namespace Text

/-! ## Splitting -/

/-- `str::split` for a single character. -/
def split (c : Char) (t : Text) : List Text := List.splitOn c t

theorem split_of_not_mem {c : Char} {t : Text} (h : c ∉ t) : split c t = [t] :=
  List.splitOn_eq_singleton h

theorem split_append {c : Char} {t : Text} (h : c ∉ t) (rest : Text) :
    split c (t ++ c :: rest) = t :: split c rest := by
  apply List.splitOn_append_cons_self_of_not_mem
  exact h

theorem splitOnce_append {c : Char} {t : Text} (h : c ∉ t) (rest : Text) :
    splitOnce c (t ++ c :: rest) = some (t, rest) := by
  have hne : ∀ d ∈ t, d ≠ c := fun d hd hdc => h (hdc ▸ hd)
  have hmem : List.contains (t ++ c :: rest) c = true := by simp
  rw [splitOnce, if_pos hmem, List.takeWhile_append_of_pos (by simpa using hne),
    List.dropWhile_append_of_pos (by simpa using hne)]
  simp

theorem stripPrefix_append (pre t : Text) : stripPrefix pre (pre ++ t) = some t := by
  have hpre : List.isPrefixOf pre (pre ++ t) = true := by
    rw [List.isPrefixOf_iff_prefix]
    exact List.prefix_append pre t
  rw [stripPrefix, if_pos hpre, List.drop_left]

/-- `str::rsplit_once`: what stands before and after the last occurrence of `needle`. -/
def rsplitOnce (needle : Text) : Text → Option (Text × Text)
  | [] => if needle.isEmpty then some ([], []) else none
  | c :: t =>
      match rsplitOnce needle t with
      | some (head, tail) => some (c :: head, tail)
      | none => if needle.isPrefixOf (c :: t) then some ([], (c :: t).drop needle.length) else none

theorem rsplitOnce_of_not_mem {c : Char} {needle t : Text} (h : c ∉ t) : rsplitOnce (c :: needle) t = none := by
  induction t with
  | nil => rfl
  | cons d t ih =>
      rw [List.mem_cons, not_or] at h
      obtain ⟨hd, ht⟩ := h
      have hnot : List.isPrefixOf (c :: needle) (d :: t) = false := by simp [List.isPrefixOf, hd]
      simp only [rsplitOnce, ih ht, hnot]
      rfl

/-- An occurrence with nothing behind it that could start another one is the last. -/
theorem rsplitOnce_append {c : Char} {needle tail : Text} (hneedle : c ∉ needle) (htail : c ∉ tail) (head : Text) :
    rsplitOnce (c :: needle) (head ++ c :: (needle ++ tail)) = some (head, tail) := by
  induction head with
  | nil =>
      have hnone : rsplitOnce (c :: needle) (needle ++ tail) = none := by
        apply rsplitOnce_of_not_mem
        rw [List.mem_append]
        exact fun hmem => hmem.elim hneedle htail
      have hpre : List.isPrefixOf (c :: needle) (c :: (needle ++ tail)) = true := by
        rw [List.isPrefixOf_iff_prefix]
        exact ⟨tail, rfl⟩
      rw [List.nil_append, rsplitOnce, hnone]
      simp only [hpre, if_true]
      simp
  | cons d head ih => rw [List.cons_append, rsplitOnce, ih]

/-! ## Numbers -/

/-- A `u32` as `{}` writes it. -/
def ofU32 (n : UInt32) : Text := Nat.toDigits 10 n.toNat

/-- `str::parse::<u32>`. -/
def parseU32 (t : Text) : Option UInt32 :=
  let digits := match t with
    | '+' :: rest => rest
    | _ => t
  if digits.isEmpty || !digits.all isAsciiDigit then none
  else if Nat.ofDigitChars 10 digits 0 < 2 ^ 32 then some (.ofNat (Nat.ofDigitChars 10 digits 0))
  else none

theorem isAsciiDigit_of_mem_ofU32 {n : UInt32} {c : Char} (h : c ∈ ofU32 n) : isAsciiDigit c = true := by
  have hdigit := Nat.isDigit_of_mem_toDigits (by decide) (by decide) h
  simp only [Char.isDigit, Bool.and_eq_true, decide_eq_true_eq] at hdigit
  simp only [isAsciiDigit, Bool.and_eq_true, decide_eq_true_eq]
  exact ⟨hdigit.1, hdigit.2⟩

/-- A sign that is no digit is not in a number. -/
theorem not_mem_ofU32 {c : Char} (hc : isAsciiDigit c = false) (n : UInt32) : c ∉ ofU32 n := by
  intro hmem
  rw [isAsciiDigit_of_mem_ofU32 hmem] at hc
  cases hc

@[simp] theorem parseU32_ofU32 (n : UInt32) : parseU32 (ofU32 n) = some n := by
  have hne : (ofU32 n).isEmpty = false := by
    rw [List.isEmpty_eq_false_iff]
    exact Nat.toDigits_ne_nil
  have hall : (ofU32 n).all isAsciiDigit = true :=
    List.all_eq_true.mpr fun c hc => isAsciiDigit_of_mem_ofU32 hc
  have hvalue : Nat.ofDigitChars 10 (ofU32 n) 0 = n.toNat := Nat.ofDigitChars_toDigits (by decide) (by decide)
  unfold parseU32
  split
  -- A number does not start with a sign.
  case h_1 rest hrest =>
    exact absurd (hrest ▸ List.mem_cons_self) (not_mem_ofU32 (by decide : isAsciiDigit '+' = false) n)
  case h_2 => simp [hne, hall, hvalue, n.toNat_lt]

end Text

end Havuz
