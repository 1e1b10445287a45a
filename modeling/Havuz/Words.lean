import Mathlib
import Havuz.Text

/-!
# The words of a text

What the classifiers ask of a text by its words: `split_whitespace`, `trim_start`, `contains` and upper case. A word
that stands in front of white space, or at the end, is read as one (`splitWhitespace_word`).
-/

namespace Havuz

/-! ## Case -/

theorem isWhitespace_of_letter {c : Char} (h : 33 ≤ c.toNat ∧ c.toNat < 127) : isWhitespace c = false := by
  simp only [isWhitespace, Bool.or_eq_false_iff, Bool.and_eq_false_iff, beq_eq_false_iff_ne, decide_eq_false_iff_not]
  omega

theorem toNat_toUpper {c : Char} (h : 'a'.val ≤ c.val ∧ c.val ≤ 'z'.val) : c.toUpper.toNat + 32 = c.toNat := by
  have hlow : 97 ≤ c.val.toNat := h.1
  have hhigh : c.val.toNat ≤ 122 := h.2
  have hval : c.toUpper.toNat = (c.val + ('A'.val - 'a'.val)).toNat := by
    rw [Char.toUpper, dif_pos h]
    rfl
  have hback : ('A'.val - 'a'.val).toNat = 2 ^ 32 - 32 := by decide
  have hnat : c.toNat = c.val.toNat := rfl
  rw [hval, UInt32.toNat_add, hback]
  omega

/-- The case of a letter does not make it white space. -/
theorem isWhitespace_toUpper (c : Char) : isWhitespace c.toUpper = isWhitespace c := by
  by_cases h : 'a'.val ≤ c.val ∧ c.val ≤ 'z'.val
  · have hlow : 97 ≤ c.toNat := h.1
    have hhigh : c.toNat ≤ 122 := h.2
    have hupper := toNat_toUpper h
    rw [isWhitespace_of_letter (by omega), isWhitespace_of_letter (by omega)]
  · rw [Char.toUpper, dif_neg h]

/-- A capital in lower case. -/
theorem val_toLower {c : Char} (h : 'A'.val ≤ c.val ∧ c.val ≤ 'Z'.val) : c.toLower.val = c.val + 32 := by
  rw [Char.toLower, dif_pos h]
  rfl

theorem toLower_toLower (c : Char) : c.toLower.toLower = c.toLower := by
  by_cases h : 'A'.val ≤ c.val ∧ c.val ≤ 'Z'.val
  · rw [Char.toLower.eq_def c.toLower, dif_neg]
    rw [val_toLower h]
    simp only [UInt32.le_iff_toNat_le, UInt32.toNat_add] at h ⊢
    show ¬ (65 ≤ (c.val.toNat + 32) % 2 ^ 32 ∧ (c.val.toNat + 32) % 2 ^ 32 ≤ 90)
    have hlow : 65 ≤ c.val.toNat := h.1
    have hhigh : c.val.toNat ≤ 90 := h.2
    omega
  · have hsame : c.toLower = c := by rw [Char.toLower, dif_neg h]
    rw [hsame, hsame]

theorem toUpper_toLower (c : Char) : c.toLower.toUpper = c.toUpper := by
  by_cases h : 'A'.val ≤ c.val ∧ c.val ≤ 'Z'.val
  · have hlow : 65 ≤ c.val.toNat := h.1
    have hhigh : c.val.toNat ≤ 90 := h.2
    have hupper : c.toUpper = c := by
      rw [Char.toUpper, dif_neg]
      rintro ⟨hle, -⟩
      have : 97 ≤ c.val.toNat := hle
      omega
    have hsmall : 'a'.val ≤ c.toLower.val ∧ c.toLower.val ≤ 'z'.val := by
      rw [val_toLower h]
      simp only [UInt32.le_iff_toNat_le, UInt32.toNat_add]
      show 97 ≤ (c.val.toNat + 32) % 2 ^ 32 ∧ (c.val.toNat + 32) % 2 ^ 32 ≤ 122
      omega
    rw [hupper, Char.toUpper, dif_pos hsmall]
    refine Char.ext ?_
    show c.toLower.val + ('A'.val - 'a'.val) = c.val
    have hback : (32 : UInt32) + ('A'.val - 'a'.val) = 0 := by decide
    rw [val_toLower h, UInt32.add_assoc, hback, UInt32.add_zero]
  · have hsame : c.toLower = c := by rw [Char.toLower, dif_neg h]
    rw [hsame]

theorem toLower_toUpper (c : Char) : c.toUpper.toLower = c.toLower := by
  by_cases h : 'a'.val ≤ c.val ∧ c.val ≤ 'z'.val
  · have hlow : 97 ≤ c.toNat := h.1
    have hhigh : c.toNat ≤ 122 := h.2
    have hupper := toNat_toUpper h
    have hcapital : 'A'.val ≤ c.toUpper.val ∧ c.toUpper.val ≤ 'Z'.val := by
      constructor
      · show 65 ≤ c.toUpper.toNat
        omega
      · show c.toUpper.toNat ≤ 90
        omega
    have hsmall : c.toLower = c := by
      rw [Char.toLower, dif_neg]
      rintro ⟨-, hle⟩
      have : c.toNat ≤ 90 := hle
      omega
    rw [hsmall]
    refine Char.ext (UInt32.toNat_inj.mp ?_)
    rw [val_toLower hcapital, UInt32.toNat_add]
    show (c.toUpper.toNat + 32) % 2 ^ 32 = c.toNat
    omega
  · rw [show c.toUpper = c by rw [Char.toUpper, dif_neg h]]

namespace Text

theorem toAsciiLowercase_lowercase (t : Text) : toAsciiLowercase (toAsciiLowercase t) = toAsciiLowercase t := by
  simp only [toAsciiLowercase, List.map_map]
  exact List.map_congr_left fun c _ => toLower_toLower c

theorem toAsciiUppercase_lowercase (t : Text) : toAsciiUppercase (toAsciiLowercase t) = toAsciiUppercase t := by
  simp only [toAsciiUppercase, toAsciiLowercase, List.map_map]
  exact List.map_congr_left fun c _ => toUpper_toLower c

theorem toAsciiLowercase_uppercase (t : Text) : toAsciiLowercase (toAsciiUppercase t) = toAsciiLowercase t := by
  simp only [toAsciiLowercase, toAsciiUppercase, List.map_map]
  exact List.map_congr_left fun c _ => toLower_toUpper c

theorem toAsciiUppercase_append (t t' : Text) : toAsciiUppercase (t ++ t') = toAsciiUppercase t ++ toAsciiUppercase t' :=
  List.map_append

/-! ## Blanks -/

/-- Nothing in it is white space. -/
def Unbroken (t : Text) : Prop := ∀ c ∈ t, isWhitespace c = false

instance (t : Text) : Decidable (Unbroken t) := List.decidableBAll _ t

/-- The text ends here, or white space follows. -/
def Ends (t : Text) : Prop := ∀ c ∈ t.head?, isWhitespace c = true

theorem trimStart_of_isWhitespace {c : Char} (h : isWhitespace c = true) (t : Text) : trimStart (c :: t) = trimStart t :=
  List.dropWhile_cons_of_pos h

theorem trimStart_of_not {c : Char} (h : isWhitespace c = false) (t : Text) : trimStart (c :: t) = c :: t :=
  List.dropWhile_cons_of_neg (by simp [h])

/-- A text with more than white space in it is not blank. -/
theorem trim_not_blank {c : Char} (hc : isWhitespace c = false) (t : Text) : (trim (c :: t)).isEmpty = false := by
  rw [List.isEmpty_eq_false_iff, trim, trimStart_of_not hc, trimEnd]
  intro hnil
  have hall := List.dropWhile_eq_nil_iff.mp (List.reverse_eq_nil_iff.mp hnil)
  have hblank := hall c (by simp)
  rw [hc] at hblank
  cases hblank

/-! ## Words -/

theorem wordsAux_append {w : Text} (hw : Unbroken w) (cur t : Text) : wordsAux cur (w ++ t) = wordsAux (w.reverse ++ cur) t := by
  induction w generalizing cur with
  | nil => rfl
  | cons c w ih =>
      obtain ⟨hc, hw⟩ := List.forall_mem_cons.mp hw
      rw [List.cons_append, wordsAux, hc, if_neg Bool.false_ne_true, ih hw, List.reverse_cons, List.append_assoc]
      rfl

/-- Where white space follows, the word that was read ends. -/
theorem wordsAux_ends {cur t : Text} (hcur : cur ≠ []) (ht : Ends t) : wordsAux cur t = cur.reverse :: splitWhitespace t := by
  have hempty : cur.isEmpty = false := List.isEmpty_eq_false_iff.mpr hcur
  match t with
  | [] => rw [wordsAux, hempty]; rfl
  | c :: t =>
      have hc : isWhitespace c = true := ht c rfl
      rw [splitWhitespace, wordsAux, wordsAux, hc, hempty]
      rfl

theorem splitWhitespace_word {w t : Text} (hw : Unbroken w) (hne : w ≠ []) (ht : Ends t) :
    splitWhitespace (w ++ t) = w :: splitWhitespace t := by
  rw [splitWhitespace, wordsAux_append hw, List.append_nil, wordsAux_ends (by simpa using hne) ht, List.reverse_reverse]

theorem splitWhitespace_of_isWhitespace {c : Char} (h : isWhitespace c = true) (t : Text) :
    splitWhitespace (c :: t) = splitWhitespace t := by
  rw [splitWhitespace, wordsAux, h]
  rfl

theorem splitWhitespace_trimStart (t : Text) : splitWhitespace (trimStart t) = splitWhitespace t := by
  induction t with
  | nil => rfl
  | cons c t ih =>
      by_cases hc : isWhitespace c = true
      · rw [trimStart_of_isWhitespace hc, splitWhitespace_of_isWhitespace hc, ih]
      · rw [trimStart_of_not (Bool.eq_false_iff.mpr hc)]

/-- The words of a text are not empty, and nothing in them is white space. -/
theorem wordsAux_unbroken {cur : Text} (hcur : Unbroken cur) (t : Text) : ∀ w ∈ wordsAux cur t, w ≠ [] ∧ Unbroken w := by
  have hrev : cur.isEmpty = false → cur.reverse ≠ [] ∧ Unbroken cur.reverse := fun hne =>
    ⟨by simpa using hne, fun c hc => hcur c (List.mem_reverse.mp hc)⟩
  have hnil : Unbroken [] := fun c hc => absurd hc List.not_mem_nil
  induction t generalizing cur with
  | nil =>
      intro w hw
      rw [wordsAux] at hw
      split at hw
      case isTrue => cases hw
      case isFalse hne =>
        rw [List.mem_singleton] at hw
        rw [hw]
        exact hrev (Bool.eq_false_iff.mpr hne)
  | cons c t ih =>
      rw [wordsAux]
      split
      case isTrue =>
        split
        case isTrue => exact ih hnil (fun h => absurd h (by simp))
        case isFalse hne =>
          exact List.forall_mem_cons.mpr ⟨hrev (Bool.eq_false_iff.mpr hne), ih hnil (fun h => absurd h (by simp))⟩
      case isFalse hc =>
        have hcons : Unbroken (c :: cur) := List.forall_mem_cons.mpr ⟨Bool.eq_false_iff.mpr hc, hcur⟩
        exact ih hcons fun _ => ⟨by simp, fun d hd => hcons d (List.mem_reverse.mp hd)⟩

theorem splitWhitespace_unbroken (t : Text) : ∀ w ∈ splitWhitespace t, w ≠ [] ∧ Unbroken w :=
  wordsAux_unbroken (fun _ hc => absurd hc List.not_mem_nil) t

/-- Words with blanks between them are read again. -/
theorem splitWhitespace_join {ws : List Text} (h : ∀ w ∈ ws, w ≠ [] ∧ Unbroken w) :
    splitWhitespace (join [' '] ws) = ws := by
  induction ws with
  | nil => rfl
  | cons w ws ih =>
      obtain ⟨⟨hne, hw⟩, hws⟩ := List.forall_mem_cons.mp h
      match ws with
      | [] =>
          have hend := splitWhitespace_word hw hne (t := []) (fun c hc => by cases hc)
          rwa [List.append_nil] at hend
      | w' :: ws =>
          have hjoin : join [' '] (w :: w' :: ws) = w ++ ' ' :: join [' '] (w' :: ws) := List.append_assoc ..
          rw [hjoin, splitWhitespace_word hw hne (fun c hc => by cases hc; rfl), splitWhitespace_of_isWhitespace rfl, ih hws]

theorem wordsAux_toAsciiUppercase (cur t : Text) :
    wordsAux (toAsciiUppercase cur) (toAsciiUppercase t) = (wordsAux cur t).map toAsciiUppercase := by
  induction t generalizing cur with
  | nil =>
      cases cur with
      | nil => rfl
      | cons c cur => simp [toAsciiUppercase, wordsAux]
  | cons c t ih =>
      have hcons : toAsciiUppercase (c :: t) = c.toUpper :: toAsciiUppercase t := rfl
      have hempty : (toAsciiUppercase cur).isEmpty = cur.isEmpty := by cases cur <;> rfl
      have hread : toAsciiUppercase (c :: cur) = c.toUpper :: toAsciiUppercase cur := rfl
      rw [hcons, wordsAux, wordsAux, isWhitespace_toUpper, hempty, ← hread, ih]
      have hnil : wordsAux [] (toAsciiUppercase t) = (wordsAux [] t).map toAsciiUppercase := ih []
      rw [hnil]
      split
      · split
        · rfl
        · simp [toAsciiUppercase]
      · rfl

theorem splitWhitespace_toAsciiUppercase (t : Text) :
    splitWhitespace (toAsciiUppercase t) = (splitWhitespace t).map toAsciiUppercase :=
  wordsAux_toAsciiUppercase [] t

/-! ## The first word -/

/-- The first word goes on as long as no white space follows. -/
theorem splitWhitespace_first {w : Text} (hw : Unbroken w) (hne : w ≠ []) (t : Text) :
    ∃ more, splitWhitespace (w ++ t) = (w ++ t.takeWhile fun c => !isWhitespace c) :: more := by
  have hword : Unbroken (w ++ t.takeWhile fun c => !isWhitespace c) := by
    intro c hc
    obtain hc | hc := List.mem_append.mp hc
    · exact hw c hc
    · simpa using List.mem_takeWhile_imp hc
  have hends : Ends (t.dropWhile fun c => !isWhitespace c) := by
    intro c hc
    have hstop := List.head?_dropWhile_not (fun c => !isWhitespace c) t
    rw [hc] at hstop
    simpa using hstop
  have hsplit := splitWhitespace_word hword (by simp [hne]) hends
  rw [List.append_assoc, List.takeWhile_append_dropWhile] at hsplit
  exact ⟨_, hsplit⟩

/-- A keyword. -/
def Letters (k : Text) : Prop := k ≠ [] ∧ ∀ c ∈ k, 'A' ≤ c ∧ c ≤ 'Z'

instance (k : Text) : Decidable (Letters k) :=
  @instDecidableAnd _ _ _ (List.decidableBAll _ k)

theorem isAsciiAlphabetic_of_toUpper {c : Char} (h : 'A' ≤ c.toUpper ∧ c.toUpper ≤ 'Z') : isAsciiAlphabetic c = true := by
  by_cases hc : 'a'.val ≤ c.val ∧ c.val ≤ 'z'.val
  · have hle : 'a' ≤ c ∧ c ≤ 'z' := hc
    simp [isAsciiAlphabetic, hle]
  · rw [Char.toUpper, dif_neg hc] at h
    simp [isAsciiAlphabetic, h]

/-- A keyword that is read as the first word, in front of what is no letter, was there before. -/
theorem keyword_of_first {w k : Text} (hw : Unbroken w) (hne : w ≠ []) (hk : Letters k) {t : Text}
    (ht : ∀ c ∈ t.head?, isAsciiAlphabetic c = false)
    (h : ((splitWhitespace (w ++ t)).map toAsciiUppercase).head? = some k) : toAsciiUppercase w = k := by
  obtain ⟨more, hsplit⟩ := splitWhitespace_first hw hne t
  rw [hsplit, List.map_cons, List.head?_cons, Option.some.injEq, toAsciiUppercase_append] at h
  match t with
  | [] => simpa [toAsciiUppercase] using h
  | c :: t =>
      rw [List.takeWhile_cons] at h
      split at h
      case isTrue =>
        have hc : c.toUpper ∈ k := by
          rw [← h]
          exact List.mem_append_right _ List.mem_cons_self
        have hletter := isAsciiAlphabetic_of_toUpper (hk.2 _ hc)
        rw [ht c rfl] at hletter
        cases hletter
      case isFalse => simpa [toAsciiUppercase] using h

/-- A first word that does not start with a letter is no keyword. -/
theorem not_keyword_of_first {w k : Text} (hw : Unbroken w) (hk : Letters k) (hhead : ∀ c ∈ w.head?, isAsciiAlphabetic c = false)
    (hne : w ≠ []) (t : Text) : ((splitWhitespace (w ++ t)).map toAsciiUppercase).head? ≠ some k := by
  intro h
  obtain ⟨more, hsplit⟩ := splitWhitespace_first hw hne t
  rw [hsplit, List.map_cons, List.head?_cons, Option.some.injEq] at h
  match w with
  | [] => exact hne rfl
  | c :: w =>
      have hc : c.toUpper ∈ k := by
        rw [← h]
        exact List.mem_cons_self
      have hletter := isAsciiAlphabetic_of_toUpper (hk.2 _ hc)
      rw [hhead c rfl] at hletter
      cases hletter

/-! ## Parts -/

theorem contains_iff_infix {t needle : Text} : contains t needle = true ↔ needle <:+: t := by
  rw [contains, List.any_eq_true, List.infix_iff_prefix_suffix]
  refine exists_congr fun tail => ?_
  rw [List.mem_tails, List.isPrefixOf_iff_prefix, and_comm]

end Text

end Havuz
