import Havuz.Text
import Mathlib.Data.List.Basic

/-!
# Text and its bytes

What `utf8Step` accepts is what `String.utf8EncodeChar` writes, lead byte by lead byte, so valid bytes are those of the text
that `from_utf8_lossy` makes of them.
-/

namespace Havuz

/-! ## One character -/

/-- The bytes of a character, from its number. -/
theorem utf8EncodeChar_ofNat {n : Nat} (h : n.isValidChar) :
    String.utf8EncodeChar (Char.ofNat n) =
      if n ≤ 0x7F then [UInt8.ofNat n]
      else if n ≤ 0x7FF then [UInt8.ofNat (n / 64 % 0x20 + 0xC0), UInt8.ofNat (n % 0x40 + 0x80)]
      else if n ≤ 0xFFFF then
        [UInt8.ofNat (n / 4096 % 0x10 + 0xE0), UInt8.ofNat (n / 64 % 0x40 + 0x80), UInt8.ofNat (n % 0x40 + 0x80)]
      else
        [UInt8.ofNat (n / 262144 % 0x08 + 0xF0), UInt8.ofNat (n / 4096 % 0x40 + 0x80), UInt8.ofNat (n / 64 % 0x40 + 0x80),
          UInt8.ofNat (n % 0x40 + 0x80)] := by
  have hval : (Char.ofNat n).val.toNat = n := by
    rw [Char.ofNat, dif_pos h]
    rfl
  simp only [String.utf8EncodeChar, hval]

theorem ofNat_eq {n : Nat} {b : UInt8} (h : n = b.toNat) : UInt8.ofNat n = b := by
  rw [h, UInt8.ofNat_toNat]

theorem isContinuation_iff {b : UInt8} : isContinuation b = true ↔ 0x80 ≤ b.toNat ∧ b.toNat ≤ 0xBF := by
  rw [isContinuation, Bool.and_eq_true, decide_eq_true_iff, decide_eq_true_iff, UInt8.le_iff_toNat_le, UInt8.le_iff_toNat_le]
  rfl

theorem encode_one {b : UInt8} (hb : b.toNat < 0x80) : String.utf8EncodeChar (Char.ofNat b.toNat) = [b] := by
  rw [utf8EncodeChar_ofNat (.inl (by omega)), if_pos (by omega), UInt8.ofNat_toNat]

theorem encode_two {b c : UInt8} (hb : 0xC2 ≤ b.toNat ∧ b.toNat ≤ 0xDF) (hc : 0x80 ≤ c.toNat ∧ c.toNat ≤ 0xBF) :
    String.utf8EncodeChar (utf8Char b 0xC0 [c]) = [b, c] := by
  rw [utf8Char, List.foldl_cons, List.foldl_nil, show (0xC0 : UInt8).toNat = 192 from rfl]
  rw [utf8EncodeChar_ofNat (.inl (by omega)), if_neg (by omega), if_pos (by omega), ofNat_eq (b := b) (by omega),
    ofNat_eq (b := c) (by omega)]

theorem encode_three {b c d : UInt8} (hb : 0xE0 ≤ b.toNat ∧ b.toNat ≤ 0xEF) (hc : 0x80 ≤ c.toNat ∧ c.toNat ≤ 0xBF)
    (hd : 0x80 ≤ d.toNat ∧ d.toNat ≤ 0xBF) (hlong : b.toNat = 0xE0 → 0xA0 ≤ c.toNat) (hsurrogate : b.toNat = 0xED → c.toNat ≤ 0x9F) :
    String.utf8EncodeChar (utf8Char b 0xE0 [c, d]) = [b, c, d] := by
  rw [utf8Char, List.foldl_cons, List.foldl_cons, List.foldl_nil, show (0xE0 : UInt8).toNat = 224 from rfl]
  have hvalid : Nat.isValidChar (((b.toNat - 224) * 64 + (c.toNat - 128)) * 64 + (d.toNat - 128)) := by
    rw [Nat.isValidChar]
    omega
  rw [utf8EncodeChar_ofNat hvalid, if_neg (by omega), if_neg (by omega), if_pos (by omega), ofNat_eq (b := b) (by omega),
    ofNat_eq (b := c) (by omega), ofNat_eq (b := d) (by omega)]

theorem encode_four {b c d e : UInt8} (hb : 0xF0 ≤ b.toNat ∧ b.toNat ≤ 0xF4) (hc : 0x80 ≤ c.toNat ∧ c.toNat ≤ 0xBF)
    (hd : 0x80 ≤ d.toNat ∧ d.toNat ≤ 0xBF) (he : 0x80 ≤ e.toNat ∧ e.toNat ≤ 0xBF) (hlong : b.toNat = 0xF0 → 0x90 ≤ c.toNat)
    (hmax : b.toNat = 0xF4 → c.toNat ≤ 0x8F) : String.utf8EncodeChar (utf8Char b 0xF0 [c, d, e]) = [b, c, d, e] := by
  rw [utf8Char, List.foldl_cons, List.foldl_cons, List.foldl_cons, List.foldl_nil, show (0xF0 : UInt8).toNat = 240 from rfl]
  have hvalid : Nat.isValidChar ((((b.toNat - 240) * 64 + (c.toNat - 128)) * 64 + (d.toNat - 128)) * 64 + (e.toNat - 128)) := by
    rw [Nat.isValidChar]
    omega
  rw [utf8EncodeChar_ofNat hvalid, if_neg (by omega), if_neg (by omega), if_neg (by omega), ofNat_eq (b := b) (by omega),
    ofNat_eq (b := c) (by omega), ofNat_eq (b := d) (by omega), ofNat_eq (b := e) (by omega)]

theorem of_second {rest : Bytes} {lo hi : UInt8} (h : (match rest with
      | c :: _ => decide (lo ≤ c) && decide (c ≤ hi)
      | [] => false) = true) : ∃ c t, rest = c :: t ∧ lo.toNat ≤ c.toNat ∧ c.toNat ≤ hi.toNat := by
  match rest, h with
  | c :: t, h =>
      obtain ⟨hlo, hhi⟩ := (Bool.and_eq_true _ _).mp h
      exact ⟨c, t, rfl, UInt8.le_iff_toNat_le.mp (of_decide_eq_true hlo), UInt8.le_iff_toNat_le.mp (of_decide_eq_true hhi)⟩

theorem of_follows {rest : Bytes} (h : (match rest with
      | c :: _ => isContinuation c
      | [] => false) = true) : ∃ c t, rest = c :: t ∧ 0x80 ≤ c.toNat ∧ c.toNat ≤ 0xBF := by
  match rest, h with
  | c :: t, h => exact ⟨c, t, rfl, isContinuation_iff.mp h⟩

theorem two_reads {b : UInt8} {rest : Bytes} {x : Char} {n : Nat} (hb : 0xC2 ≤ b.toNat ∧ b.toNat ≤ 0xDF)
    (h : (if (match rest with
        | c :: _ => isContinuation c
        | [] => false) = true then (some (utf8Char b 0xC0 (rest.take 1)), 1) else (none, 0)) = (some x, n)) :
    b :: rest = String.utf8EncodeChar x ++ rest.drop n := by
  split_ifs at h with hfollows
  · simp only [Prod.mk.injEq, Option.some.injEq] at h
    obtain ⟨rfl, rfl⟩ := h
    obtain ⟨c, t, rfl, hc⟩ := of_follows hfollows
    rw [List.take_succ_cons, List.take_zero, encode_two hb hc]
    rfl
  · simp at h

theorem three_reads {b lo hi : UInt8} {rest : Bytes} {x : Char} {n : Nat} (hb : 0xE0 ≤ b.toNat ∧ b.toNat ≤ 0xEF)
    (hrange : 0x80 ≤ lo.toNat ∧ hi.toNat ≤ 0xBF) (hlong : b.toNat = 0xE0 → 0xA0 ≤ lo.toNat)
    (hsurrogate : b.toNat = 0xED → hi.toNat ≤ 0x9F)
    (h : (if (!match rest with
        | c :: _ => decide (lo ≤ c) && decide (c ≤ hi)
        | [] => false) = true then (none, 0)
      else if (!match rest.drop 1 with
        | c :: _ => isContinuation c
        | [] => false) = true then (none, 1)
      else (some (utf8Char b 0xE0 (rest.take 2)), 2)) = (some x, n)) :
    b :: rest = String.utf8EncodeChar x ++ rest.drop n := by
  simp only [Bool.not_eq_true'] at h
  split_ifs at h with hsecond hfollows
  · simp at h
  · simp at h
  · simp only [Prod.mk.injEq, Option.some.injEq] at h
    obtain ⟨rfl, rfl⟩ := h
    obtain ⟨c, t, rfl, hc⟩ := of_second (eq_true_of_ne_false hsecond)
    obtain ⟨d, t, heq, hd⟩ := of_follows (eq_true_of_ne_false hfollows)
    obtain rfl := (List.drop_one (l := c :: _)).symm.trans heq
    rw [List.take_succ_cons, List.take_succ_cons, List.take_zero, encode_three hb (by omega) hd
      (fun heq => Nat.le_trans (hlong heq) hc.1) fun heq => Nat.le_trans hc.2 (hsurrogate heq)]
    rfl

theorem four_reads {b lo hi : UInt8} {rest : Bytes} {x : Char} {n : Nat} (hb : 0xF0 ≤ b.toNat ∧ b.toNat ≤ 0xF4)
    (hrange : 0x80 ≤ lo.toNat ∧ hi.toNat ≤ 0xBF) (hlong : b.toNat = 0xF0 → 0x90 ≤ lo.toNat)
    (hmax : b.toNat = 0xF4 → hi.toNat ≤ 0x8F)
    (h : (if (!match rest with
        | c :: _ => decide (lo ≤ c) && decide (c ≤ hi)
        | [] => false) = true then (none, 0)
      else if (!match rest.drop 1 with
        | c :: _ => isContinuation c
        | [] => false) = true then (none, 1)
      else if (!match rest.drop 2 with
        | c :: _ => isContinuation c
        | [] => false) = true then (none, 2)
      else (some (utf8Char b 0xF0 (rest.take 3)), 3)) = (some x, n)) :
    b :: rest = String.utf8EncodeChar x ++ rest.drop n := by
  simp only [Bool.not_eq_true'] at h
  split_ifs at h with hsecond hfollows hfollows'
  · simp at h
  · simp at h
  · simp at h
  · simp only [Prod.mk.injEq, Option.some.injEq] at h
    obtain ⟨rfl, rfl⟩ := h
    obtain ⟨c, t, rfl, hc⟩ := of_second (eq_true_of_ne_false hsecond)
    obtain ⟨d, t, heq, hd⟩ := of_follows (eq_true_of_ne_false hfollows)
    obtain rfl := (List.drop_one (l := c :: _)).symm.trans heq
    obtain ⟨e, t, rfl, he⟩ := of_follows (eq_true_of_ne_false hfollows')
    rw [List.take_succ_cons, List.take_succ_cons, List.take_succ_cons, List.take_zero, encode_four hb (by omega) hd he
      (fun heq => Nat.le_trans (hlong heq) hc.1) fun heq => Nat.le_trans hc.2 (hmax heq)]
    rfl

/-- A step that succeeds reads the bytes of its character. -/
theorem encode_utf8Step {b : UInt8} {rest : Bytes} {x : Char} {n : Nat} (h : utf8Step b rest = (some x, n)) :
    b :: rest = String.utf8EncodeChar x ++ rest.drop n := by
  unfold utf8Step at h
  dsimp only at h
  have hle : ∀ {lo hi : UInt8}, (decide (lo ≤ b) && decide (b ≤ hi)) = true → lo.toNat ≤ b.toNat ∧ b.toNat ≤ hi.toNat := by
    intro lo hi hb
    obtain ⟨hlo, hhi⟩ := (Bool.and_eq_true _ _).mp hb
    exact ⟨UInt8.le_iff_toNat_le.mp (of_decide_eq_true hlo), UInt8.le_iff_toNat_le.mp (of_decide_eq_true hhi)⟩
  have hother : ∀ {lead : UInt8}, ¬ (b == lead) = true → b.toNat ≠ lead.toNat :=
    fun hb heq => hb (beq_iff_eq.mpr (UInt8.toNat_inj.mp heq))
  have hlead : ∀ {lead : UInt8}, (b == lead) = true → b.toNat = lead.toNat := fun hb => congrArg UInt8.toNat (beq_iff_eq.mp hb)
  by_cases hb : b < 0x80
  · rw [if_pos hb] at h
    simp only [Prod.mk.injEq, Option.some.injEq] at h
    obtain ⟨rfl, rfl⟩ := h
    rw [encode_one (UInt8.lt_iff_toNat_lt.mp hb)]
    rfl
  rw [if_neg hb] at h
  by_cases hb : (decide (0xC2 ≤ b) && decide (b ≤ 0xDF)) = true
  · rw [if_pos hb] at h
    exact two_reads (hle hb) h
  rw [if_neg hb] at h
  by_cases hb : (b == 0xE0) = true
  · rw [if_pos hb] at h
    have hb : b.toNat = 0xE0 := hlead hb
    exact three_reads (by omega) (by decide) (fun _ => by decide) (fun heq => by omega) h
  rw [if_neg hb] at h
  by_cases hb' : (b == 0xED) = true
  · rw [if_pos hb'] at h
    have hb' : b.toNat = 0xED := hlead hb'
    exact three_reads (by omega) (by decide) (fun heq => by omega) (fun _ => by decide) h
  rw [if_neg hb'] at h
  by_cases hrange : (decide (0xE1 ≤ b) && decide (b ≤ 0xEF)) = true
  · rw [if_pos hrange] at h
    have hrange : 0xE1 ≤ b.toNat ∧ b.toNat ≤ 0xEF := hle hrange
    exact three_reads (by omega) (by decide) (fun heq => by omega) (fun heq => absurd heq (hother hb')) h
  rw [if_neg hrange] at h
  by_cases hb : (b == 0xF0) = true
  · rw [if_pos hb] at h
    have hb : b.toNat = 0xF0 := hlead hb
    exact four_reads (by omega) (by decide) (fun _ => by decide) (fun heq => by omega) h
  rw [if_neg hb] at h
  by_cases hrange : (decide (0xF1 ≤ b) && decide (b ≤ 0xF3)) = true
  · rw [if_pos hrange] at h
    have hrange : 0xF1 ≤ b.toNat ∧ b.toNat ≤ 0xF3 := hle hrange
    exact four_reads (by omega) (by decide) (fun heq => by omega) (fun heq => by omega) h
  rw [if_neg hrange] at h
  by_cases hb : (b == 0xF4) = true
  · rw [if_pos hb] at h
    have hb : b.toNat = 0xF4 := hlead hb
    exact four_reads (by omega) (by decide) (fun heq => by omega) (fun _ => by decide) h
  rw [if_neg hb] at h
  simp at h

theorem flatMap_encode_utf8Decode (fuel : Nat) (bs : Bytes) (hfuel : bs.length ≤ fuel)
    (h : (utf8Decode fuel bs).all Option.isSome = true) :
    ((utf8Decode fuel bs).map fun c => c.getD (Char.ofNat 0xFFFD)).flatMap String.utf8EncodeChar = bs := by
  induction fuel generalizing bs with
  | zero =>
      rw [List.eq_nil_of_length_eq_zero (Nat.le_zero.mp hfuel)]
      rfl
  | succ fuel ih =>
      match bs with
      | [] => rfl
      | b :: rest =>
          rw [utf8Decode] at h ⊢
          rw [List.all_cons, Bool.and_eq_true] at h
          obtain ⟨x, hx⟩ := Option.isSome_iff_exists.mp h.1
          have hstep : b :: rest = String.utf8EncodeChar x ++ rest.drop (utf8Step b rest).2 :=
            encode_utf8Step (Prod.ext hx rfl)
          have hlen : (rest.drop (utf8Step b rest).2).length ≤ fuel := by
            rw [List.length_drop]
            rw [List.length_cons] at hfuel
            omega
          rw [List.map_cons, List.flatMap_cons, ih _ hlen h.2, hx, hstep]
          rfl

/-- Valid text is decoded to the characters it is the bytes of. -/
theorem asBytes_fromUtf8Lossy {bs : Bytes} (h : isUtf8 bs = true) : Text.asBytes (fromUtf8Lossy bs) = bs :=
  flatMap_encode_utf8Decode bs.length bs (Nat.le_refl _) h

/-! ## Encoded text is decoded -/

theorem within_iff {b lo hi : UInt8} :
    (decide (lo ≤ b) && decide (b ≤ hi)) = true ↔ lo.toNat ≤ b.toNat ∧ b.toNat ≤ hi.toNat := by
  rw [Bool.and_eq_true, decide_eq_true_iff, decide_eq_true_iff, UInt8.le_iff_toNat_le, UInt8.le_iff_toNat_le]

theorem beq_iff_toNat {b k : UInt8} : (b == k) = true ↔ b.toNat = k.toNat := by
  rw [beq_iff_eq, UInt8.toNat_inj]

theorem not_lt_of_toNat {b : UInt8} (h : 0x80 ≤ b.toNat) : ¬ b < 0x80 := by
  rw [UInt8.lt_iff_toNat_lt]
  exact Nat.not_lt.mpr h

/-- A step on the bytes of a character of two bytes. -/
theorem utf8Step_two {b c : UInt8} (hb : 0xC2 ≤ b.toNat ∧ b.toNat ≤ 0xDF) (hc : 0x80 ≤ c.toNat ∧ c.toNat ≤ 0xBF)
    (rest : Bytes) : utf8Step b (c :: rest) = (some (utf8Char b 0xC0 [c]), 1) := by
  unfold utf8Step
  dsimp only
  rw [if_neg (not_lt_of_toNat (by omega)), if_pos ((@within_iff b 0xC2 0xDF).mpr hb)]
  simp only [List.drop_zero, List.take_succ_cons, List.take_zero, if_pos (isContinuation_iff.mpr hc)]

/-- Of three bytes. -/
theorem utf8Step_three {b c d : UInt8} (hb : 0xE0 ≤ b.toNat ∧ b.toNat ≤ 0xEF) (hc : 0x80 ≤ c.toNat ∧ c.toNat ≤ 0xBF)
    (hd : 0x80 ≤ d.toNat ∧ d.toNat ≤ 0xBF) (hlong : b.toNat = 0xE0 → 0xA0 ≤ c.toNat)
    (hsurrogate : b.toNat = 0xED → c.toNat ≤ 0x9F) (rest : Bytes) :
    utf8Step b (c :: d :: rest) = (some (utf8Char b 0xE0 [c, d]), 2) := by
  have hthree : ∀ lo hi : UInt8, lo.toNat ≤ c.toNat ∧ c.toNat ≤ hi.toNat →
      (if (!(decide (lo ≤ c) && decide (c ≤ hi))) = true then ((none : Option Char), 0)
        else if (!isContinuation d) = true then (none, 1) else (some (utf8Char b 0xE0 [c, d]), 2)) =
        (some (utf8Char b 0xE0 [c, d]), 2) := by
    intro lo hi hrange
    rw [within_iff.mpr hrange, isContinuation_iff.mpr hd]
    rfl
  unfold utf8Step
  dsimp only
  rw [if_neg (not_lt_of_toNat (by omega)), if_neg fun h => by
    have hle := (within_iff.mp h).2
    have hdf : (0xDF : UInt8).toNat = 223 := rfl
    omega]
  simp only [List.drop_succ_cons, List.drop_zero, List.take_succ_cons, List.take_zero]
  by_cases he0 : b.toNat = 0xE0
  · rw [if_pos ((@beq_iff_toNat b 0xE0).mpr he0)]
    exact hthree 0xA0 0xBF ⟨hlong he0, hc.2⟩
  rw [if_neg fun h => he0 ((@beq_iff_toNat b 0xE0).mp h)]
  by_cases hed : b.toNat = 0xED
  · rw [if_pos ((@beq_iff_toNat b 0xED).mpr hed)]
    exact hthree 0x80 0x9F ⟨hc.1, hsurrogate hed⟩
  rw [if_neg fun h => hed ((@beq_iff_toNat b 0xED).mp h), if_pos ((@within_iff b 0xE1 0xEF).mpr ⟨show 225 ≤ b.toNat by omega, hb.2⟩)]
  exact hthree 0x80 0xBF hc

/-- Of four bytes. -/
theorem utf8Step_four {b c d e : UInt8} (hb : 0xF0 ≤ b.toNat ∧ b.toNat ≤ 0xF4) (hc : 0x80 ≤ c.toNat ∧ c.toNat ≤ 0xBF)
    (hd : 0x80 ≤ d.toNat ∧ d.toNat ≤ 0xBF) (he : 0x80 ≤ e.toNat ∧ e.toNat ≤ 0xBF) (hlong : b.toNat = 0xF0 → 0x90 ≤ c.toNat)
    (hmax : b.toNat = 0xF4 → c.toNat ≤ 0x8F) (rest : Bytes) :
    utf8Step b (c :: d :: e :: rest) = (some (utf8Char b 0xF0 [c, d, e]), 3) := by
  have hfour : ∀ lo hi : UInt8, lo.toNat ≤ c.toNat ∧ c.toNat ≤ hi.toNat →
      (if (!(decide (lo ≤ c) && decide (c ≤ hi))) = true then ((none : Option Char), 0)
        else if (!isContinuation d) = true then (none, 1) else if (!isContinuation e) = true then (none, 2)
        else (some (utf8Char b 0xF0 [c, d, e]), 3)) = (some (utf8Char b 0xF0 [c, d, e]), 3) := by
    intro lo hi hrange
    rw [within_iff.mpr hrange, isContinuation_iff.mpr hd, isContinuation_iff.mpr he]
    rfl
  have hlead : ∀ lo hi : UInt8, hi.toNat < 0xF0 → ¬ (decide (lo ≤ b) && decide (b ≤ hi)) = true := fun lo hi hlt h => by
    have hle := (within_iff.mp h).2
    omega
  have hother : ∀ k : UInt8, k.toNat < 0xF0 → ¬ (b == k) = true := fun k hlt h => by
    have heq := beq_iff_toNat.mp h
    omega
  unfold utf8Step
  dsimp only
  rw [if_neg (not_lt_of_toNat (by omega)), if_neg (hlead _ _ (by decide)), if_neg (hother _ (by decide)),
    if_neg (hother _ (by decide)), if_neg (hlead _ _ (by decide))]
  simp only [List.drop_succ_cons, List.drop_zero, List.take_succ_cons, List.take_zero]
  by_cases hf0 : b.toNat = 0xF0
  · rw [if_pos ((@beq_iff_toNat b 0xF0).mpr hf0)]
    exact hfour 0x90 0xBF ⟨hlong hf0, hc.2⟩
  rw [if_neg fun h => hf0 ((@beq_iff_toNat b 0xF0).mp h)]
  by_cases hf4 : b.toNat = 0xF4
  · rw [if_neg fun h => by
      have hle := (within_iff.mp h).2
      have hf3 : (0xF3 : UInt8).toNat = 243 := rfl
      omega, if_pos ((@beq_iff_toNat b 0xF4).mpr hf4)]
    exact hfour 0x80 0x8F ⟨hc.1, hmax hf4⟩
  · rw [if_pos ((@within_iff b 0xF1 0xF3).mpr ⟨show 241 ≤ b.toNat by omega, show b.toNat ≤ 243 by omega⟩)]
    exact hfour 0x80 0xBF hc

theorem toNat_ofNat_of_lt {n : Nat} (h : n < 256) : (UInt8.ofNat n).toNat = n := by
  rw [UInt8.toNat_ofNat']
  omega

/-- A step on the bytes of a character reads that character. -/
theorem utf8Step_encode (x : Char) (rest : Bytes) :
    ∃ b tail, String.utf8EncodeChar x = b :: tail ∧ utf8Step b (tail ++ rest) = (some x, tail.length) := by
  have hvalid : x.toNat.isValidChar := x.valid
  have hx : Char.ofNat x.toNat = x := Char.ofNat_toNat x
  generalize x.toNat = n at hvalid hx
  subst hx
  have hrange : n < 0xD800 ∨ 0xDFFF < n ∧ n < 0x110000 := hvalid
  rw [utf8EncodeChar_ofNat hvalid]
  by_cases h1 : n ≤ 0x7F
  · have hb : (UInt8.ofNat n).toNat = n := toNat_ofNat_of_lt (by omega)
    refine ⟨_, [], if_pos h1, ?_⟩
    rw [utf8Step, if_pos (UInt8.lt_iff_toNat_lt.mpr (by rw [hb]; exact Nat.lt_succ_of_le h1)), hb]
    rfl
  by_cases h2 : n ≤ 0x7FF
  · have hb : (UInt8.ofNat (n / 64 % 0x20 + 0xC0)).toNat = n / 64 + 0xC0 := by
      rw [toNat_ofNat_of_lt (by omega)]
      omega
    have hc : (UInt8.ofNat (n % 0x40 + 0x80)).toNat = n % 0x40 + 0x80 := toNat_ofNat_of_lt (by omega)
    refine ⟨_, _, by rw [if_neg h1, if_pos h2], ?_⟩
    rw [List.singleton_append, utf8Step_two (by omega) (by omega), utf8Char, List.foldl_cons, List.foldl_nil, hb, hc,
      show (0xC0 : UInt8).toNat = 192 from rfl]
    rw [show (n / 64 + 192 - 192) * 64 + (n % 64 + 128 - 128) = n by omega]
    rfl
  by_cases h3 : n ≤ 0xFFFF
  · have hb : (UInt8.ofNat (n / 4096 % 0x10 + 0xE0)).toNat = n / 4096 + 0xE0 := by
      rw [toNat_ofNat_of_lt (by omega)]
      omega
    have hc : (UInt8.ofNat (n / 64 % 0x40 + 0x80)).toNat = n / 64 % 0x40 + 0x80 := toNat_ofNat_of_lt (by omega)
    have hd : (UInt8.ofNat (n % 0x40 + 0x80)).toNat = n % 0x40 + 0x80 := toNat_ofNat_of_lt (by omega)
    refine ⟨_, _, by rw [if_neg h1, if_neg h2, if_pos h3], ?_⟩
    rw [List.cons_append, List.singleton_append, utf8Step_three (by omega) (by omega) (by omega) (by omega) (by omega),
      utf8Char, List.foldl_cons, List.foldl_cons, List.foldl_nil, hb, hc, hd, show (0xE0 : UInt8).toNat = 224 from rfl]
    rw [show ((n / 4096 + 224 - 224) * 64 + (n / 64 % 64 + 128 - 128)) * 64 + (n % 64 + 128 - 128) = n by omega]
    rfl
  · have hb : (UInt8.ofNat (n / 262144 % 0x08 + 0xF0)).toNat = n / 262144 + 0xF0 := by
      rw [toNat_ofNat_of_lt (by omega)]
      omega
    have hc : (UInt8.ofNat (n / 4096 % 0x40 + 0x80)).toNat = n / 4096 % 0x40 + 0x80 := toNat_ofNat_of_lt (by omega)
    have hd : (UInt8.ofNat (n / 64 % 0x40 + 0x80)).toNat = n / 64 % 0x40 + 0x80 := toNat_ofNat_of_lt (by omega)
    have he : (UInt8.ofNat (n % 0x40 + 0x80)).toNat = n % 0x40 + 0x80 := toNat_ofNat_of_lt (by omega)
    refine ⟨_, _, by rw [if_neg h1, if_neg h2, if_neg h3], ?_⟩
    rw [List.cons_append, List.cons_append, List.singleton_append,
      utf8Step_four (by omega) (by omega) (by omega) (by omega) (by omega) (by omega), utf8Char, List.foldl_cons,
      List.foldl_cons, List.foldl_cons, List.foldl_nil, hb, hc, hd, he, show (0xF0 : UInt8).toNat = 240 from rfl]
    rw [show (((n / 262144 + 240 - 240) * 64 + (n / 4096 % 64 + 128 - 128)) * 64 + (n / 64 % 64 + 128 - 128)) * 64 +
      (n % 64 + 128 - 128) = n by omega]
    rfl

theorem utf8Decode_asBytes (fuel : Nat) (t : Text) (hfuel : (Text.asBytes t).length ≤ fuel) :
    utf8Decode fuel (Text.asBytes t) = t.map some := by
  induction t generalizing fuel with
  | nil => cases fuel <;> rfl
  | cons x t ih =>
      obtain ⟨b, tail, hx, hstep⟩ := utf8Step_encode x (Text.asBytes t)
      have hbytes : Text.asBytes (x :: t) = b :: (tail ++ Text.asBytes t) := by
        rw [Text.asBytes, List.flatMap_cons, hx]
        rfl
      rw [hbytes, List.length_cons, List.length_append] at hfuel
      obtain ⟨fuel, rfl⟩ := Nat.exists_eq_succ_of_ne_zero (show fuel ≠ 0 by omega)
      rw [hbytes, utf8Decode, hstep, List.drop_left, ih fuel (by omega), List.map_cons]

/-- The bytes of a text are valid, and are decoded to the text. -/
theorem isUtf8_asBytes (t : Text) : isUtf8 (Text.asBytes t) = true := by
  rw [isUtf8, utf8Decode_asBytes _ t (Nat.le_refl _)]
  simp

theorem fromUtf8Lossy_asBytes (t : Text) : fromUtf8Lossy (Text.asBytes t) = t := by
  rw [fromUtf8Lossy, utf8Decode_asBytes _ t (Nat.le_refl _), List.map_map]
  exact List.map_id t

end Havuz
