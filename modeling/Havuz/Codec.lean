import Havuz.Jdbc.Bind
import Havuz.Lib.Many
import Havuz.Startup

/-!
# Messages composed and read back

Reference: `row_description`, `data_row`, `error_response` and `error_fields` of `havuz-pg/src/protocol.rs`, `parse_columns`
and `parse_data_row` of `havuz-pg/src/trace.rs`.

A count goes into sixteen bits and a text up to its NUL, and nothing checks that it fits: `decode_what_was_composed` says
for what rows, columns and errors it does.
-/

namespace Havuz

open Lib

/-! ## Composing -/

/-- `put_i16` of `z as i16`. -/
def putI16 (z : ℤ) : Bytes :=
  let n := (z % 2 ^ 16).toNat
  [UInt8.ofNat (n / 2 ^ 8), UInt8.ofNat n]

/-- A column as `RowDescription` carries it. -/
structure FieldDescription extends Jdbc.FieldDescription where
  typeModifier : ℤ
deriving DecidableEq, Repr

namespace Message

/-- What follows the name: no table and no column number, the type, text format. -/
def fieldType (field : FieldDescription) : Bytes :=
  putI32 0 ++ putI16 0 ++ putI32 field.typeOid ++ putI16 field.typeSize ++ putI32 field.typeModifier ++ putI16 0

def putField (field : FieldDescription) : Bytes := cstring field.name ++ fieldType field

def rowDescription (fields : List FieldDescription) : Message :=
  ⟨byte 'T', putI16 fields.length ++ fields.flatMap putField⟩

/-- NULL is a length of -1 and no bytes. -/
def putValue : Option Bytes → Bytes
  | some bytes => putI32 bytes.length ++ bytes
  | none => putI32 (-1)

def dataRow (values : List (Option Bytes)) : Message := ⟨byte 'D', putI16 values.length ++ values.flatMap putValue⟩

end Message

/-! ## Reading -/

namespace Trace

/-- One round of the loop in `parse_columns`. -/
def takeColumn (rest : Bytes) : Option (Text × Bytes) :=
  match takeCstring rest with
  | none => none
  | some (name, rest) => if rest.length < 18 then none else some (fromUtf8Lossy name, rest.drop 18)

/-- Nothing comes of columns that are cut off. -/
def parseColumns : Bytes → List Text
  | a :: b :: rest => (((readMany takeColumn (Jdbc.i16OfBytes a b).toNat rest).map Prod.fst).getD [])
  | _ => []

/-- A value that is not UTF-8 is shown as its bytes. -/
def shown (value : Bytes) : Text := if isUtf8 value then fromUtf8Lossy value else '\\' :: 'x' :: Jdbc.hex value

/-- One round of the loop in `parse_data_row`. -/
def takeValue (rest : Bytes) : Option (Option Text × Bytes) :=
  match getI32 rest with
  | none => none
  | some (length, rest) =>
      if length = -1 then some (none, rest)
      else if length < 0 then none
      else if rest.length < length.toNat then none
      else some (some (shown (rest.take length.toNat)), rest.drop length.toNat)

def parseDataRow : Bytes → Option (List (Option Text))
  | a :: b :: rest =>
      if Jdbc.i16OfBytes a b < 0 then none
      else (readMany takeValue (Jdbc.i16OfBytes a b).toNat rest).map Prod.fst
  | _ => none

end Trace

/-! ## Counts -/

/-- The count that is read is the low sixteen bits, as a signed number. -/
theorem i16OfBytes_putI16 (n : ℕ) :
    Jdbc.i16OfBytes (UInt8.ofNat (((n : ℤ) % 2 ^ 16).toNat / 2 ^ 8)) (UInt8.ofNat ((n : ℤ) % 2 ^ 16).toNat) =
      if n % 2 ^ 16 < 2 ^ 15 then ((n % 2 ^ 16 : ℕ) : ℤ) else ((n % 2 ^ 16 : ℕ) : ℤ) - 2 ^ 16 := by
  have hmod : ((n : ℤ) % 2 ^ 16).toNat = n % 2 ^ 16 := by omega
  have hlow : n % 2 ^ 16 / 2 ^ 8 % 2 ^ 8 * 256 + n % 2 ^ 16 % 2 ^ 8 = n % 2 ^ 16 := by omega
  rw [hmod]
  simp only [Jdbc.i16OfBytes, UInt8.toNat_ofNat']
  rw [hlow]

namespace Trace

theorem parseColumns_putI16 (n : ℕ) (rest : Bytes) :
    parseColumns (putI16 n ++ rest) =
      if n % 2 ^ 16 < 2 ^ 15 then ((readMany takeColumn (n % 2 ^ 16) rest).map Prod.fst).getD [] else [] := by
  show ((readMany takeColumn (Jdbc.i16OfBytes _ _).toNat rest).map Prod.fst).getD [] = _
  rw [i16OfBytes_putI16]
  split
  · rw [Int.toNat_natCast]
  · have hzero : (((n % 2 ^ 16 : ℕ) : ℤ) - 2 ^ 16).toNat = 0 := by omega
    rw [hzero]
    rfl

theorem parseDataRow_putI16 (n : ℕ) (rest : Bytes) :
    parseDataRow (putI16 n ++ rest) =
      if n % 2 ^ 16 < 2 ^ 15 then (readMany takeValue (n % 2 ^ 16) rest).map Prod.fst else none := by
  show (if Jdbc.i16OfBytes _ _ < 0 then none
      else (readMany takeValue (Jdbc.i16OfBytes _ _).toNat rest).map Prod.fst) = _
  rw [i16OfBytes_putI16]
  split
  · rw [if_neg (by omega), Int.toNat_natCast]
  · rw [if_pos (by omega)]

/-! ## Names -/

theorem zero_mem_utf8EncodeChar {c : Char} (h : (0 : UInt8) ∈ String.utf8EncodeChar c) : c = Char.ofNat 0 := by
  obtain ⟨n, hn, rfl⟩ : ∃ n, n.isValidChar ∧ c = Char.ofNat n := ⟨c.toNat, c.valid, (Char.ofNat_toNat c).symm⟩
  have hbyte : ∀ {m : ℕ}, (0 : UInt8) = UInt8.ofNat m → m % 256 = 0 := by
    intro m hm
    have hval := congrArg UInt8.toNat hm
    rw [UInt8.toNat_ofNat'] at hval
    exact hval.symm
  rw [utf8EncodeChar_ofNat hn] at h
  split_ifs at h with hone htwo hthree
  · have hzero := hbyte (List.mem_singleton.mp h)
    have hn : n = 0 := by omega
    rw [hn]
  · rcases List.mem_cons.mp h with hm | h
    · have hzero := hbyte hm
      omega
    · have hzero := hbyte (List.mem_singleton.mp h)
      omega
  · rcases List.mem_cons.mp h with hm | h
    · have hzero := hbyte hm
      omega
    · rcases List.mem_cons.mp h with hm | h
      · have hzero := hbyte hm
        omega
      · have hzero := hbyte (List.mem_singleton.mp h)
        omega
  · rcases List.mem_cons.mp h with hm | h
    · have hzero := hbyte hm
      omega
    · rcases List.mem_cons.mp h with hm | h
      · have hzero := hbyte hm
        omega
      · rcases List.mem_cons.mp h with hm | h
        · have hzero := hbyte hm
          omega
        · have hzero := hbyte (List.mem_singleton.mp h)
          omega

/-- A text holds a NUL. -/
def HoldsNul (t : Text) : Prop := Char.ofNat 0 ∈ t

theorem zero_notMem_asBytes {t : Text} (h : ¬ HoldsNul t) : (0 : UInt8) ∉ t.asBytes := by
  intro hmem
  obtain ⟨c, hc, hbyte⟩ := List.mem_flatMap.mp hmem
  rw [zero_mem_utf8EncodeChar hbyte] at hc
  exact h hc

theorem takeCstring_cstring {t : Text} (h : ¬ HoldsNul t) (rest : Bytes) :
    takeCstring (Message.cstring t ++ rest) = some (t.asBytes, rest) := by
  rw [Message.cstring, List.append_assoc]
  exact takeCstring_append (zero_notMem_asBytes h) rest

/-- A text with a NUL is what stands in front of its first one, and the rest behind it. -/
theorem exists_asBytes_cut {t : Text} (h : HoldsNul t) :
    ∃ pre more, t.asBytes = pre.asBytes ++ 0 :: more ∧ ¬ HoldsNul pre ∧ pre ≠ t := by
  obtain ⟨pre, post, rfl, hpre⟩ := List.eq_append_cons_of_mem h
  refine ⟨pre, Text.asBytes post, ?_, hpre, ?_⟩
  · rw [Text.asBytes, List.flatMap_append, List.flatMap_cons]
    rfl
  · intro heq
    have hlength := congrArg List.length heq
    rw [List.length_append, List.length_cons] at hlength
    omega

theorem takeColumn_putField {field : FieldDescription} (h : ¬ HoldsNul field.name) (tail : Bytes) :
    takeColumn (Message.putField field ++ tail) = some (field.name, tail) := by
  rw [takeColumn, Message.putField, List.append_assoc, takeCstring_cstring h]
  dsimp only
  rw [fromUtf8Lossy_asBytes, if_neg (by simp [Message.fieldType, putI32, putI16, i32Bytes])]
  rfl

/-- A name with a NUL comes back without the NUL and what follows it. -/
theorem ne_of_takeColumn {field : FieldDescription} (h : ¬ ¬ HoldsNul field.name) (tail : Bytes) (r : Text × Bytes)
    (hread : takeColumn (Message.putField field ++ tail) = some r) : r.1 ≠ field.name := by
  obtain ⟨pre, more, hbytes, hpre, hne⟩ := exists_asBytes_cut (not_not.mp h)
  rw [takeColumn, Message.putField, Message.cstring, hbytes, List.append_assoc, List.append_assoc, List.append_assoc,
    List.cons_append, takeCstring_append (zero_notMem_asBytes hpre)] at hread
  dsimp only at hread
  split_ifs at hread
  obtain rfl := Option.some.inj hread
  rw [fromUtf8Lossy_asBytes]
  exact hne

theorem parseColumns_rowDescription (fields : List FieldDescription) :
    parseColumns (Message.rowDescription fields).body = fields.map (·.name) ↔
      fields.length ≤ 32767 ∧ ∀ field ∈ fields, ¬ HoldsNul field.name := by
  have hread : (readMany takeColumn fields.length (fields.flatMap Message.putField ++ [])).map Prod.fst =
      some (fields.map (·.name)) ↔ ∀ field ∈ fields, ¬ HoldsNul field.name :=
    readMany_flatMap_iff (fun _ => takeColumn_putField) (fun _ => ne_of_takeColumn) fields []
  rw [List.append_nil] at hread
  show parseColumns (putI16 fields.length ++ _) = _ ↔ _
  rw [parseColumns_putI16]
  by_cases hcount : fields.length ≤ 32767
  · have hmod : fields.length % 2 ^ 16 = fields.length := by omega
    rw [hmod, if_pos (by omega), ← hread]
    refine ⟨fun h => ⟨hcount, ?_⟩, fun h => by rw [h.2]; rfl⟩
    cases hmany : readMany takeColumn fields.length (fields.flatMap Message.putField) with
    | none =>
        -- Nothing came of the columns, so there are none, and of none nothing is missing.
        rw [hmany] at h
        obtain rfl := List.map_eq_nil_iff.mp h.symm
        cases hmany
    | some r =>
        rw [hmany] at h
        exact congrArg some h
  · refine ⟨fun h => ?_, fun h => absurd h.1 hcount⟩
    have hlength := congrArg List.length h
    rw [List.length_map] at hlength
    split_ifs at hlength with hmod
    · cases hmany : readMany takeColumn (fields.length % 2 ^ 16) (fields.flatMap Message.putField) with
      | none =>
          rw [hmany] at hlength
          simp only [Option.map_none, Option.getD_none, List.length_nil] at hlength
          omega
      | some r =>
          rw [hmany] at hlength
          obtain ⟨values, rest⟩ := r
          have hr := length_of_readMany hmany
          simp only [Option.map_some, Option.getD_some] at hlength
          omega
    · rw [List.length_nil] at hlength
      omega

/-! ## Values -/

theorem utf8EncodeChar_ascii {c : Char} (h : c.toNat < 128) : String.utf8EncodeChar c = [UInt8.ofNat c.toNat] := by
  have hone := utf8EncodeChar_ofNat (n := c.toNat) c.valid
  rwa [Char.ofNat_toNat, if_pos (by omega)] at hone

/-- ASCII text is one byte for each character. -/
theorem asBytes_ascii {t : Text} (h : ∀ c ∈ t, c.toNat < 128) : t.asBytes = t.map fun c => UInt8.ofNat c.toNat := by
  induction t with
  | nil => rfl
  | cons c t ih =>
      obtain ⟨hc, ht⟩ := List.forall_mem_cons.mp h
      show String.utf8EncodeChar c ++ Text.asBytes t = _
      rw [utf8EncodeChar_ascii hc, ih ht]
      rfl

/-- A value that is not UTF-8, as it is shown. -/
def escaped (value : Bytes) : Text := '\\' :: 'x' :: Jdbc.hex value

theorem escaped_ascii (value : Bytes) : ∀ c ∈ escaped value, c.toNat < 128 := by
  have hdigit : ∀ n < 16, (Jdbc.hexDigit n).toNat < 128 := by decide
  intro c hc
  rcases List.mem_cons.mp hc with rfl | hc
  · decide
  · rcases List.mem_cons.mp hc with rfl | hc
    · decide
    · obtain ⟨b, -, hb⟩ := List.mem_flatMap.mp hc
      have hlt := b.toNat_lt
      rcases List.mem_cons.mp hb with rfl | hb
      · exact hdigit _ (by omega)
      · obtain rfl := List.mem_singleton.mp hb
        exact hdigit _ (by omega)

theorem length_hex (value : Bytes) : (Jdbc.hex value).length = 2 * value.length := by
  induction value with
  | nil => rfl
  | cons b value ih =>
      show (Jdbc.hex value).length + 2 = 2 * (value.length + 1)
      omega

theorem length_asBytes_escaped (value : Bytes) : (escaped value).asBytes.length = 2 * value.length + 2 := by
  rw [asBytes_ascii (escaped_ascii value), List.length_map]
  show (Jdbc.hex value).length + 2 = _
  rw [length_hex]

theorem shown_of_utf8 {value : Bytes} (h : isUtf8 value = true) : (shown value).asBytes = value := by
  rw [shown, if_pos h, asBytes_fromUtf8Lossy h]

theorem shown_of_not_utf8 {value : Bytes} (h : ¬ isUtf8 value = true) : shown value = escaped value := by
  rw [shown, if_neg h, escaped]

/-- The beginning of ASCII text is UTF-8. -/
theorem isUtf8_take_escaped (value : Bytes) (k : ℕ) : isUtf8 ((escaped value).asBytes.take k) = true := by
  have hascii := escaped_ascii value
  rw [asBytes_ascii hascii, ← List.map_take, ← asBytes_ascii fun c hc => hascii c (List.mem_of_mem_take hc)]
  exact isUtf8_asBytes _

/-- A value that is cut short is not shown as the whole one. -/
theorem shown_take_ne {value : Bytes} {k : ℕ} (h : k < value.length) : shown (value.take k) ≠ shown value := by
  intro heq
  have hbytes := congrArg (fun t : Text => t.asBytes.length) heq
  have hk : (value.take k).length = k := by
    rw [List.length_take]
    omega
  by_cases htake : isUtf8 (value.take k) = true
  · rw [shown_of_utf8 htake, hk] at hbytes
    by_cases hvalue : isUtf8 value = true
    · rw [shown_of_utf8 hvalue] at hbytes
      omega
    · rw [shown_of_not_utf8 hvalue, length_asBytes_escaped] at hbytes
      omega
  · by_cases hvalue : isUtf8 value = true
    · -- Then the whole is the escape of its own beginning, which is ASCII.
      have hwhole := shown_of_utf8 hvalue
      rw [← heq, shown_of_not_utf8 htake] at hwhole
      rw [← hwhole] at htake
      exact htake (isUtf8_take_escaped _ k)
    · rw [shown_of_not_utf8 htake, shown_of_not_utf8 hvalue, length_asBytes_escaped, length_asBytes_escaped, hk] at hbytes
      omega

/-- Only the empty value is shown as nothing. -/
theorem shown_eq_nil_iff {value : Bytes} : shown value = [] ↔ value = [] := by
  refine ⟨fun h => ?_, fun h => by rw [h]; rfl⟩
  by_cases hvalue : isUtf8 value = true
  · have hbytes := shown_of_utf8 hvalue
    rw [h] at hbytes
    exact hbytes.symm
  · rw [shown_of_not_utf8 hvalue] at h
    cases h

/-- The length of a value fits its field. -/
def ValueFits (value : Option Bytes) : Prop := ∀ bytes ∈ value, bytes.length < 2 ^ 31

theorem takeValue_putValue {value : Option Bytes} (h : ValueFits value) (tail : Bytes) :
    takeValue (Message.putValue value ++ tail) = some (value.map shown, tail) := by
  cases value with
  | none => rw [Message.putValue, takeValue, getI32_putI32 (by rw [IsI32]; decide)]; rfl
  | some bytes =>
      have hlength : bytes.length < 2 ^ 31 := h bytes rfl
      have hi32 : IsI32 bytes.length := by
        rw [IsI32]
        omega
      rw [Message.putValue, takeValue, List.append_assoc, getI32_putI32 hi32]
      dsimp only
      rw [if_neg (by omega), if_neg (by omega), Int.toNat_natCast, if_neg (by rw [List.length_append]; omega),
        List.take_left, List.drop_left]
      rfl

/-- The length that is read is the low thirty-two bits, as a signed number. -/
theorem exists_putI32_eq (n : ℕ) (hn : 2 ^ 31 ≤ n) : ∃ z : ℤ, IsI32 z ∧ putI32 n = putI32 z ∧ z < n := by
  refine ⟨if n % 2 ^ 32 < 2 ^ 31 then ((n % 2 ^ 32 : ℕ) : ℤ) else ((n % 2 ^ 32 : ℕ) : ℤ) - 2 ^ 32, ?_, ?_, ?_⟩
  · rw [IsI32]
    split <;> omega
  · rw [putI32, putI32]
    congr 2
    split <;> omega
  · split <;> omega

/-- A value whose length does not fit is not read as what it was. -/
theorem ne_of_takeValue {value : Option Bytes} (h : ¬ ValueFits value) (tail : Bytes) (r : Option Text × Bytes)
    (hread : takeValue (Message.putValue value ++ tail) = some r) : r.1 ≠ value.map shown := by
  cases value with
  | none => exact absurd (fun _ hb => absurd hb (Option.not_mem_none _)) h
  | some bytes =>
      have hlong : 2 ^ 31 ≤ bytes.length := by
        by_contra hshort
        refine h fun b hb => ?_
        obtain rfl := Option.mem_some_iff.mp hb
        omega
      obtain ⟨z, hz, hput, hlt⟩ := exists_putI32_eq bytes.length hlong
      rw [Message.putValue, takeValue, hput, List.append_assoc, getI32_putI32 hz] at hread
      dsimp only at hread
      split_ifs at hread with hnull hneg hshort
      · obtain rfl := Option.some.inj hread
        exact nofun
      · obtain rfl := Option.some.inj hread
        have hle : z.toNat < bytes.length := by omega
        rw [List.take_append_of_le_length (le_of_lt hle)]
        intro heq
        exact shown_take_ne hle (Option.some.inj heq)

theorem parseDataRow_dataRow (values : List (Option Bytes)) :
    parseDataRow (Message.dataRow values).body = some (values.map (Option.map shown)) ↔
      values.length ≤ 32767 ∧ ∀ value ∈ values, ValueFits value := by
  have hread : (readMany takeValue values.length (values.flatMap Message.putValue ++ [])).map Prod.fst =
      some (values.map (Option.map shown)) ↔ ∀ value ∈ values, ValueFits value :=
    readMany_flatMap_iff (fun _ => takeValue_putValue) (fun _ => ne_of_takeValue) values []
  rw [List.append_nil] at hread
  show parseDataRow (putI16 values.length ++ _) = _ ↔ _
  rw [parseDataRow_putI16]
  by_cases hcount : values.length ≤ 32767
  · have hmod : values.length % 2 ^ 16 = values.length := by omega
    rw [hmod, if_pos (by omega), hread]
    exact ⟨fun h => ⟨hcount, h⟩, fun h => h.2⟩
  · refine ⟨fun h => ?_, fun h => absurd h.1 hcount⟩
    split_ifs at h with hmod
    obtain ⟨r, hmany, hr⟩ := Option.map_eq_some_iff.mp h
    obtain ⟨fields, rest⟩ := r
    obtain rfl : fields = values.map (Option.map shown) := hr
    have hlength := length_of_readMany hmany
    rw [List.length_map] at hlength
    omega

/-! ## Counts that do not fit -/

/-- Of a row of more columns than a count can say, the first ones are read, or nothing. -/
theorem parseDataRow_wrapped {values : List (Option Bytes)} (h : ∀ value ∈ values, ValueFits value) :
    parseDataRow (Message.dataRow values).body =
      if values.length % 2 ^ 16 < 2 ^ 15 then some ((values.take (values.length % 2 ^ 16)).map (Option.map shown))
      else none := by
  have hread := readMany_take (Nat.mod_le values.length (2 ^ 16)) (fun v hv => takeValue_putValue (h v hv)) []
  rw [List.append_nil] at hread
  show parseDataRow (putI16 values.length ++ _) = _
  rw [parseDataRow_putI16, hread]
  rfl

theorem parseColumns_wrapped {fields : List FieldDescription} (h : ∀ field ∈ fields, ¬ HoldsNul field.name) :
    parseColumns (Message.rowDescription fields).body =
      if fields.length % 2 ^ 16 < 2 ^ 15 then (fields.take (fields.length % 2 ^ 16)).map (·.name) else [] := by
  have hread := readMany_take (Nat.mod_le fields.length (2 ^ 16)) (fun v hv => takeColumn_putField (h v hv)) []
  rw [List.append_nil] at hread
  show parseColumns (putI16 fields.length ++ _) = _
  rw [parseColumns_putI16, hread]
  rfl

end Trace

/-! ## Errors and messages -/

namespace Message

theorem errorFieldsAux_succ (fuel : ℕ) (rest : Bytes) :
    errorFieldsAux (fuel + 1) rest =
      match takeCstring rest with
      | some (field :: value, rest) => (field, fromUtf8Lossy value) :: errorFieldsAux fuel rest
      | _ => [] := by
  rw [errorFieldsAux, takeCstring]
  split
  · cases rest.takeWhile (· ≠ 0) <;> rfl
  · rfl

theorem errorFieldsAux_errorField {c : Char} (hc : byte c ≠ 0) {t : Text} (h : ¬ Trace.HoldsNul t) (fuel : ℕ)
    (rest : Bytes) :
    errorFieldsAux (fuel + 1) (errorField c t ++ rest) = (byte c, t) :: errorFieldsAux fuel rest := by
  have hzero : (0 : UInt8) ∉ byte c :: t.asBytes := by
    intro hmem
    rcases List.mem_cons.mp hmem with hm | hm
    · exact hc hm.symm
    · exact Trace.zero_notMem_asBytes h hm
  have hbytes : errorField c t ++ rest = (byte c :: t.asBytes) ++ 0 :: rest := by
    simp only [errorField, cstring, List.cons_append, List.append_assoc, List.nil_append]
  rw [errorFieldsAux_succ, hbytes, takeCstring_append hzero]
  dsimp only
  rw [fromUtf8Lossy_asBytes]

/-- A text with a NUL comes back as what stands in front of it. -/
theorem exists_errorFieldsAux_cut {c : Char} (hc : byte c ≠ 0) {t : Text} (h : Trace.HoldsNul t) (fuel : ℕ) (rest : Bytes) :
    ∃ pre fields, errorFieldsAux (fuel + 1) (errorField c t ++ rest) = (byte c, pre) :: fields ∧ pre ≠ t := by
  obtain ⟨pre, more, hcut, hpre, hne⟩ := Trace.exists_asBytes_cut h
  have hzero : (0 : UInt8) ∉ byte c :: pre.asBytes := by
    intro hmem
    rcases List.mem_cons.mp hmem with hm | hm
    · exact hc hm.symm
    · exact Trace.zero_notMem_asBytes hpre hm
  have hbytes : errorField c t ++ rest = (byte c :: pre.asBytes) ++ 0 :: (more ++ 0 :: rest) := by
    simp only [errorField, cstring, hcut, List.cons_append, List.append_assoc, List.nil_append]
  refine ⟨pre, errorFieldsAux fuel (more ++ 0 :: rest), ?_, hne⟩
  rw [errorFieldsAux_succ, hbytes, takeCstring_append hzero]
  dsimp only
  rw [fromUtf8Lossy_asBytes]

/-- The head of what comes back is the text that was put there, if and only if there is no NUL in it. -/
theorem errorFieldsAux_eq_iff {c : Char} (hc : byte c ≠ 0) (t : Text) (fuel : ℕ) (rest : Bytes)
    (fields : List (UInt8 × Text)) :
    errorFieldsAux (fuel + 1) (errorField c t ++ rest) = (byte c, t) :: fields ↔
      ¬ Trace.HoldsNul t ∧ errorFieldsAux fuel rest = fields := by
  by_cases h : Trace.HoldsNul t
  · obtain ⟨pre, fields', heq, hne⟩ := exists_errorFieldsAux_cut hc h fuel rest
    rw [heq]
    refine ⟨fun heq' => absurd (Prod.mk.inj (List.cons.inj heq').1).2 hne, fun hn => absurd h hn.1⟩
  · rw [errorFieldsAux_errorField hc h]
    refine ⟨fun heq => ⟨h, (List.cons.inj heq).2⟩, fun hn => by rw [hn.2]⟩

theorem errorFields_errorResponse (severity code message : Text) :
    (errorResponse severity code message).errorFields =
        [(byte 'S', severity), (byte 'V', severity), (byte 'C', code), (byte 'M', message)] ↔
      ¬ Trace.HoldsNul severity ∧ ¬ Trace.HoldsNul code ∧ ¬ Trace.HoldsNul message := by
  obtain ⟨fuel, hfuel⟩ : ∃ fuel, (errorResponse severity code message).body.length = fuel + 1 + 1 + 1 + 1 + 1 := by
    refine ⟨(errorResponse severity code message).body.length - 5, ?_⟩
    simp only [errorResponse, errorField, cstring, List.length_append, List.length_cons]
    omega
  have hend : errorFieldsAux (fuel + 1) [0] = [] := rfl
  rw [errorFields, hfuel, errorResponse]
  dsimp only
  rw [List.append_assoc, List.append_assoc, List.append_assoc, errorFieldsAux_eq_iff (by decide),
    errorFieldsAux_eq_iff (by decide), errorFieldsAux_eq_iff (by decide), errorFieldsAux_eq_iff (by decide)]
  exact ⟨fun ⟨hs, _, hc, hm, _⟩ => ⟨hs, hc, hm⟩, fun ⟨hs, hc, hm⟩ => ⟨hs, hs, hc, hm, hend⟩⟩

/-- One round of reading from a stream. -/
def readNext (stream : Bytes) : Option (Message × Bytes) :=
  match read stream with
  | .message m rest => some (m, rest)
  | .failed => none
  | .waits => none

theorem readMany_encode {ms : List Message} (h : ∀ m ∈ ms, m.body.length ≤ maxMessageLen) (rest : Bytes) :
    readMany readNext ms.length (ms.flatMap encode ++ rest) = some (ms, rest) := by
  have hread : ∀ m ∈ ms, ∀ tail, readNext (m.encode ++ tail) = some (id m, tail) := by
    intro m hm tail
    rw [readNext, read_encode_of_le (h m hm)]
    rfl
  have hmany := readMany_flatMap hread rest
  rwa [List.map_id] at hmany

/-- Messages come back from the stream they are written to. Rows, columns and errors come back as what they were composed
from if and only if the count, the lengths and the texts fit the format; the rest is what becomes of a count that does
not. -/
theorem decode_what_was_composed (ms : List Message) (rest : Bytes) (values : List (Option Bytes)) (value : Bytes)
    (fields : List FieldDescription) (severity code message : Text) :
    ((∀ m ∈ ms, m.body.length ≤ maxMessageLen) →
      readMany readNext ms.length (ms.flatMap encode ++ rest) = some (ms, rest)) ∧
    (Trace.parseDataRow (dataRow values).body = some (values.map (Option.map Trace.shown)) ↔
      values.length ≤ 32767 ∧ ∀ value ∈ values, Trace.ValueFits value) ∧
    (Trace.shown value = [] ↔ value = []) ∧
    (Trace.parseColumns (rowDescription fields).body = fields.map (·.name) ↔
      fields.length ≤ 32767 ∧ ∀ field ∈ fields, ¬ Trace.HoldsNul field.name) ∧
    ((errorResponse severity code message).errorFields =
        [(byte 'S', severity), (byte 'V', severity), (byte 'C', code), (byte 'M', message)] ↔
      ¬ Trace.HoldsNul severity ∧ ¬ Trace.HoldsNul code ∧ ¬ Trace.HoldsNul message) ∧
    ((∀ value ∈ values, Trace.ValueFits value) → Trace.parseDataRow (dataRow values).body =
      if values.length % 2 ^ 16 < 2 ^ 15 then
        some ((values.take (values.length % 2 ^ 16)).map (Option.map Trace.shown))
      else none) ∧
    ((∀ field ∈ fields, ¬ Trace.HoldsNul field.name) → Trace.parseColumns (rowDescription fields).body =
      if fields.length % 2 ^ 16 < 2 ^ 15 then (fields.take (fields.length % 2 ^ 16)).map (·.name) else []) :=
  ⟨fun h => readMany_encode h rest, Trace.parseDataRow_dataRow values, Trace.shown_eq_nil_iff,
    Trace.parseColumns_rowDescription fields, errorFields_errorResponse severity code message,
    Trace.parseDataRow_wrapped, Trace.parseColumns_wrapped⟩

/-- The text of an error ends at its NUL, and what follows is a field of its own. A row of 65537 columns is one of a single
column. -/
theorem not_decoded :
    (errorResponse "ERROR".toList "XX000".toList ['a', Char.ofNat 0, 'D', 'b']).errorFields =
        [(byte 'S', "ERROR".toList), (byte 'V', "ERROR".toList), (byte 'C', "XX000".toList), (byte 'M', ['a']),
          (byte 'D', ['b'])] ∧
      Trace.parseColumns (rowDescription [⟨⟨['a', Char.ofNat 0, 'b'], 25, -1⟩, -1⟩]).body ≠ [['a', Char.ofNat 0, 'b']] ∧
      Trace.parseDataRow (dataRow (List.replicate 65537 none)).body = some [none] := by
  refine ⟨by decide +kernel, by decide +kernel, ?_⟩
  have hfits : ∀ value ∈ List.replicate 65537 (none : Option Bytes), Trace.ValueFits value := by
    intro value hvalue
    rw [List.eq_of_mem_replicate hvalue]
    exact nofun
  rw [Trace.parseDataRow_wrapped hfits, List.length_replicate, List.take_replicate]
  rfl

end Message

end Havuz
