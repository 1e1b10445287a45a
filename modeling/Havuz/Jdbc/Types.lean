import Havuz.Jdbc.Bind
import Havuz.Scram.Attributes

/-!
# Values of the database on their way to the client

Reference: `havuz-jdbc/src/types.rs`, `Outcome::from`, `column_types` and `fields` of `havuz-jdbc/src/session.rs`, and
`Values.java`.

The agent writes a value down by the type code of its column. The session announces a type by the name the driver has
for it, if PostgreSQL has that name too, and by the code otherwise, and what it changes about the value depends on what
it announced. `Agrees` says what the two have to have in common.
-/

namespace Havuz.Jdbc

/-! ## Type codes -/

-- `java.sql.Types`
namespace Types

def bit : Int := -7
def tinyint : Int := -6
def smallint : Int := 5
def integer : Int := 4
def bigint : Int := -5
def float : Int := 6
def real : Int := 7
def double : Int := 8
def numeric : Int := 2
def decimal : Int := 3
def char : Int := 1
def varchar : Int := 12
def longvarchar : Int := -1
def date : Int := 91
def time : Int := 92
def timestamp : Int := 93
def binary : Int := -2
def varbinary : Int := -3
def longvarbinary : Int := -4
def boolean : Int := 16
def nchar : Int := -15
def nvarchar : Int := -9
def longnvarchar : Int := -16
def blob : Int := 2004
def clob : Int := 2005
def nclob : Int := 2011
def sqlxml : Int := 2009
def timeWithTimezone : Int := 2013
def timestampWithTimezone : Int := 2014

end Types

/-! ## The agent -/

/-- A value of the current row, as the getters of the driver give it. -/
structure Cell where
  bytes : Option Bytes
  blob : Option Bytes
  boolean : Bool
  /-- `toPlainString` of the decimal. -/
  decimal : Option Text
  clob : Option Text
  xml : Option Text
  string : Option Text
  wasNull : Bool
deriving DecidableEq, Repr

namespace Values

def maxLobBytes : ℕ := 64 * 1024 * 1024

/-- How many `char`s a string has in Java. -/
def javaLength (t : Text) : ℕ := (t.map fun c => if c.toNat < 0x10000 then 1 else 2).sum

def readRaw (cell : Cell) (jdbcType : Int) : Except Text (Option Text) :=
  if jdbcType ∈ [Types.binary, Types.varbinary, Types.longvarbinary] then .ok (cell.bytes.map hex)
  else if jdbcType = Types.blob then
    match cell.blob with
    | none => .ok none
    | some blob =>
        if maxLobBytes < blob.length then
          .error ("BLOB of ".toList ++ (toString blob.length).toList ++ " bytes exceeds the agent's limit".toList)
        else .ok (some (hex blob))
  else if jdbcType ∈ [Types.boolean, Types.bit] then .ok (some (if cell.boolean then "true".toList else "false".toList))
  else if jdbcType ∈ [Types.decimal, Types.numeric] then .ok cell.decimal
  else if jdbcType ∈ [Types.clob, Types.nclob] then
    match cell.clob with
    | none => .ok none
    | some clob =>
        if maxLobBytes < javaLength clob then
          .error ("CLOB of ".toList ++ (toString (javaLength clob)).toList ++ " characters exceeds the agent's limit".toList)
        else .ok (some clob)
  else if jdbcType = Types.sqlxml then .ok cell.xml
  else .ok cell.string

/-- A getter for a primitive type answers something for a NULL, so that is asked for afterwards. -/
def read (cell : Cell) (jdbcType : Int) : Except Text (Option Text) :=
  (readRaw cell jdbcType).map fun value => if cell.wasNull then none else value

end Values

/-! ## The session -/

inductive Encoding where
  | verbatim
  /-- `true` and `false` from the agent, `t` and `f` on the wire. -/
  | boolean
  /-- Hex from the agent, with a prefix on the wire. -/
  | bytea
deriving DecidableEq, Repr

structure PgType where
  oid : Int
  size : Int
  encoding : Encoding
deriving DecidableEq, Repr

namespace PgType

def new (oid size : Int) : PgType := ⟨oid, size, .verbatim⟩

def bool : PgType := ⟨16, 1, .boolean⟩
def bytea : PgType := ⟨17, -1, .bytea⟩
def int8 : PgType := new 20 8
def int2 : PgType := new 21 2
def int4 : PgType := new 23 4
def text : PgType := new 25 (-1)
def json : PgType := new 114 (-1)
def xml : PgType := new 142 (-1)
def float4 : PgType := new 700 4
def float8 : PgType := new 701 8
def bpchar : PgType := new 1042 (-1)
def varchar : PgType := new 1043 (-1)
def date : PgType := new 1082 4
def time : PgType := new 1083 8
def timestamp : PgType := new 1114 8
def timestamptz : PgType := new 1184 8
def interval : PgType := new 1186 16
def timetz : PgType := new 1266 12
def numeric : PgType := new 1700 (-1)
def uuid : PgType := new 2950 16
def jsonb : PgType := new 3802 (-1)

/-- Render the agent's string in PostgreSQL's text format. -/
def encode (t : PgType) (value : Text) : Bytes :=
  match t.encoding with
  | .verbatim => value.asBytes
  | .boolean =>
      if value = "true".toList then Text.asBytes ['t']
      else if value = "false".toList then Text.asBytes ['f']
      -- what is no boolean is passed through
      else value.asBytes
  | .bytea => Text.asBytes ['\\', 'x'] ++ value.asBytes

end PgType

/-- The names of `by_name`. -/
def namedTypes : List (Text × PgType) :=
  [("bool".toList, .bool), ("boolean".toList, .bool), ("bytea".toList, .bytea), ("int2".toList, .int2),
    ("smallint".toList, .int2), ("int4".toList, .int4), ("integer".toList, .int4), ("serial".toList, .int4),
    ("int8".toList, .int8), ("bigint".toList, .int8), ("bigserial".toList, .int8), ("float4".toList, .float4),
    ("real".toList, .float4), ("float8".toList, .float8), ("double precision".toList, .float8), ("numeric".toList, .numeric),
    ("decimal".toList, .numeric), ("json".toList, .json), ("jsonb".toList, .jsonb), ("uuid".toList, .uuid),
    ("xml".toList, .xml), ("date".toList, .date), ("time".toList, .time), ("timetz".toList, .timetz),
    ("time with time zone".toList, .timetz), ("timestamp".toList, .timestamp),
    ("timestamp without time zone".toList, .timestamp), ("timestamptz".toList, .timestamptz),
    ("timestamp with time zone".toList, .timestamptz), ("interval".toList, .interval), ("varchar".toList, .varchar),
    ("character varying".toList, .varchar), ("bpchar".toList, .bpchar), ("char".toList, .bpchar),
    ("character".toList, .bpchar), ("text".toList, .text), ("name".toList, .text)]

/-- The name of a type as it is looked up. -/
def lookupName (typeName : Text) : Text := (typeName.trim).toAsciiLowercase

def byName (typeName : Text) : Option PgType :=
  (namedTypes.find? fun e => e.1 = lookupName typeName).map Prod.snd

/-- The codes of `by_code`. -/
def codedTypes : List (Int × PgType) :=
  [(Types.boolean, .bool), (Types.bit, .bool), (Types.tinyint, .int2), (Types.smallint, .int2), (Types.integer, .int4),
    (Types.bigint, .int8), (Types.real, .float4), (Types.float, .float8), (Types.double, .float8),
    (Types.numeric, .numeric), (Types.decimal, .numeric), (Types.date, .date), (Types.time, .time),
    (Types.timeWithTimezone, .timetz), (Types.timestamp, .timestamp), (Types.timestampWithTimezone, .timestamptz),
    (Types.binary, .bytea), (Types.varbinary, .bytea), (Types.longvarbinary, .bytea), (Types.blob, .bytea),
    (Types.sqlxml, .xml), (Types.char, .text), (Types.varchar, .text), (Types.longvarchar, .text), (Types.nchar, .text),
    (Types.nvarchar, .text), (Types.longnvarchar, .text), (Types.clob, .text), (Types.nclob, .text)]

/-- Everything else is text: the value is a string already. -/
def byCode (jdbcType : Int) : PgType :=
  ((codedTypes.find? fun e => e.1 = jdbcType).map Prod.snd).getD .text

/-- Trusting the name would lose something the code says is there. -/
def discardsInformation (named coded : PgType) : Bool :=
  (named.oid == PgType.date.oid && (coded.oid == PgType.timestamp.oid || coded.oid == PgType.timestamptz.oid)) ||
    (named.oid == PgType.time.oid && coded.oid == PgType.timestamp.oid)

/-- What the client is told a column is. -/
def pgType (jdbcType : Int) (typeName : Text) : PgType :=
  match byName typeName with
  | none => byCode jdbcType
  | some named => if discardsInformation named (byCode jdbcType) then byCode jdbcType else named

/-- A column as the agent describes it. -/
structure Column where
  name : Text
  jdbcType : Int
  typeName : Text
deriving DecidableEq, Repr

def Column.pgType (c : Column) : PgType := Jdbc.pgType c.jdbcType c.typeName

/-- What is announced. -/
def fields (columns : List Column) : List FieldDescription :=
  columns.map fun c => ⟨c.name, c.pgType.oid, c.pgType.size⟩

/-- The row that is sent, from the row the agent gave. -/
def encodeRow (columns : List Column) (row : List (Option Text)) : List (Option Bytes) :=
  row.mapIdx fun i value => value.map fun text =>
    match columns[i]? with
    | some c => c.pgType.encode text
    | none => text.asBytes

/-- A binary column under its own name, and one whose name is a PostgreSQL type. -/
example : (pgType Types.varbinary "BLOB".toList).encode "00ff".toList = Text.asBytes "\\x00ff".toList ∧
    (pgType Types.binary "timestamp".toList).encode "00ff".toList = Text.asBytes "00ff".toList := by decide

/-! ## What the two have in common -/

/-- The agent renders byte arrays under this code as bare hex. -/
def RendersHex (jdbcType : Int) : Prop :=
  ∀ (cell : Cell) (bytes : Bytes), cell.bytes = some bytes → cell.blob = some bytes → bytes.length ≤ Values.maxLobBytes →
    Values.readRaw cell jdbcType = .ok (some (hex bytes))

/-- It renders the value as true or false. -/
def RendersBoolean (jdbcType : Int) : Prop :=
  ∀ cell : Cell, Values.readRaw cell jdbcType = .ok (some (if cell.boolean then "true".toList else "false".toList))

/-- A value as a client takes it from the text format. -/
inductive PgValue where
  | bytes (value : Bytes)
  | bool (value : Bool)
  | text (value : Text)
deriving DecidableEq, Repr

/-- Two digits a byte. -/
def hexBytes : Text → Option Bytes
  | [] => some []
  | a :: b :: t => do return UInt8.ofNat ((← characterDigit a) * 16 + (← characterDigit b)) :: (← hexBytes t)
  | _ => none

/-- PostgreSQL's text format of the types that are not text. -/
def decode (oid : Int) (value : Bytes) : Option PgValue := do
  let text ← fromUtf8 value
  if oid = PgType.bytea.oid then
    match text with
    | '\\' :: 'x' :: digits => (hexBytes digits).map .bytes
    | _ => none
  else if oid = PgType.bool.oid then
    if text = ['t'] then some (.bool true) else if text = ['f'] then some (.bool false) else none
  else some (.text text)

/-- The client decodes this value of a row under the type it was told. -/
def Decodes (columns : List Column) (row : List (Option Text)) (i : ℕ) (value : PgValue) : Prop :=
  ∃ field datum, (fields columns)[i]? = some field ∧ (encodeRow columns row)[i]? = some (some datum) ∧
    decode field.typeOid datum = some value

/-- The session adjusts what the agent writes, and no more, and the client gets the byte arrays and booleans of the
database. -/
structure Agrees (jdbcType : Int) (typeName : Text) : Prop where
  bytea : (pgType jdbcType typeName).encoding = .bytea ↔ RendersHex jdbcType
  boolean : (pgType jdbcType typeName).encoding = .boolean ↔ RendersBoolean jdbcType
  verbatim : (pgType jdbcType typeName).encoding = .verbatim ↔ ¬ RendersHex jdbcType ∧ ¬ RendersBoolean jdbcType
  bytes : RendersHex jdbcType → ∀ {columns : List Column} {row : List (Option Text)} {i : ℕ} {name : Text} {cell : Cell}
    {bytes : Bytes} {value : Option Text}, columns[i]? = some ⟨name, jdbcType, typeName⟩ → cell.bytes = some bytes →
    cell.blob = some bytes → cell.wasNull = false → Values.read cell jdbcType = .ok value → row[i]? = some value →
    Decodes columns row i (.bytes bytes)
  bools : RendersBoolean jdbcType → ∀ {columns : List Column} {row : List (Option Text)} {i : ℕ} {name : Text} {cell : Cell}
    {value : Option Text}, columns[i]? = some ⟨name, jdbcType, typeName⟩ → cell.wasNull = false →
    Values.read cell jdbcType = .ok value → row[i]? = some value → Decodes columns row i (.bool cell.boolean)

def hexCodes : List Int := [Types.binary, Types.varbinary, Types.longvarbinary, Types.blob]

def booleanCodes : List Int := [Types.boolean, Types.bit]

/-- A name that PostgreSQL has is of the kind of the code. -/
def SameKind (jdbcType : Int) (typeName : Text) : Prop :=
  lookupName typeName ∈ namedTypes.map Prod.fst →
    (lookupName typeName = "bytea".toList ↔ jdbcType ∈ hexCodes) ∧
      (lookupName typeName ∈ ["bool".toList, "boolean".toList] ↔ jdbcType ∈ booleanCodes)

/-! ### The kinds -/

/-- A byte array is rendered as hex or refused for its length. -/
theorem readRaw_hex {jdbcType : Int} {cell : Cell} {bytes : Bytes} (hcode : jdbcType ∈ hexCodes) (hbytes : cell.bytes = some bytes)
    (hblob : cell.blob = some bytes) :
    Values.readRaw cell jdbcType = .ok (some (hex bytes)) ∨
      Values.maxLobBytes < bytes.length ∧ ∃ e, Values.readRaw cell jdbcType = .error e := by
  rw [Values.readRaw]
  split_ifs with hbinary hlob
  · rw [hbytes]
    exact .inl rfl
  · rw [hblob]
    dsimp only
    split_ifs with hlength
    · exact .inr ⟨hlength, _, rfl⟩
    · exact .inl rfl
  all_goals
    refine absurd hcode ?_
    simpa [hexCodes, not_or, and_assoc] using And.intro hbinary hlob

theorem rendersHex_iff {jdbcType : Int} : RendersHex jdbcType ↔ jdbcType ∈ hexCodes := by
  constructor
  · intro h
    by_contra hnot
    obtain ⟨hbinary, hblob⟩ : jdbcType ∉ [Types.binary, Types.varbinary, Types.longvarbinary] ∧ jdbcType ≠ Types.blob := by
      simpa [hexCodes, not_or, and_assoc] using hnot
    -- a value that only the two binary getters show
    have hread := h ⟨some [0], some [0], false, none, none, none, none, false⟩ [0] rfl rfl (by decide)
    rw [Values.readRaw, if_neg hbinary, if_neg hblob] at hread
    split_ifs at hread
    · exact absurd (Except.ok.inj hread) (by decide)
    all_goals cases hread
  · intro hcode cell bytes hbytes hblob hlength
    exact (readRaw_hex hcode hbytes hblob).resolve_right fun h => Nat.not_lt_of_le hlength h.1

theorem rendersBoolean_iff {jdbcType : Int} : RendersBoolean jdbcType ↔ jdbcType ∈ booleanCodes := by
  constructor
  · intro h
    by_contra hnot
    have hread := h ⟨none, none, true, none, none, none, none, false⟩
    rw [Values.readRaw, if_neg (show ¬ jdbcType ∈ [Types.boolean, Types.bit] from hnot)] at hread
    split_ifs at hread
    all_goals cases hread
  · intro hcode cell
    have hother : ∀ code ∈ booleanCodes, code ∉ [Types.binary, Types.varbinary, Types.longvarbinary] ∧ code ≠ Types.blob := by
      decide
    obtain ⟨hbinary, hblob⟩ := hother jdbcType hcode
    rw [Values.readRaw, if_neg hbinary, if_neg hblob, if_pos (show jdbcType ∈ [Types.boolean, Types.bit] from hcode)]

theorem byCode_encoding (jdbcType : Int) :
    ((byCode jdbcType).encoding = .bytea ↔ jdbcType ∈ hexCodes) ∧
      ((byCode jdbcType).encoding = .boolean ↔ jdbcType ∈ booleanCodes) := by
  have htable : ∀ e ∈ codedTypes, (e.2.encoding = .bytea ↔ e.1 ∈ hexCodes) ∧ (e.2.encoding = .boolean ↔ e.1 ∈ booleanCodes) := by
    decide
  rw [byCode]
  cases hfind : codedTypes.find? fun e => e.1 = jdbcType with
  | some e =>
      obtain rfl : e.1 = jdbcType := by simpa using List.find?_some hfind
      exact htable e (List.mem_of_find?_eq_some hfind)
  | none =>
      -- the codes of both kinds are in the table
      have hcodes : ∀ code ∈ hexCodes ++ booleanCodes, ∃ e ∈ codedTypes, e.1 = code := by decide
      have hnot : jdbcType ∉ hexCodes ++ booleanCodes := by
        intro hmem
        obtain ⟨e, he, heq⟩ := hcodes jdbcType hmem
        exact absurd (decide_eq_true heq) (List.find?_eq_none.mp hfind e he)
      obtain ⟨hhex, hboolean⟩ := not_or.mp (mt List.mem_append.mpr hnot)
      exact ⟨⟨nofun, fun h => absurd h hhex⟩, ⟨nofun, fun h => absurd h hboolean⟩⟩

/-- The name decides the encoding, also where it would discard information. -/
theorem pgType_encoding (jdbcType : Int) (typeName : Text) :
    (pgType jdbcType typeName).encoding = ((byName typeName).getD (byCode jdbcType)).encoding := by
  rw [pgType]
  cases hname : byName typeName with
  | none => rfl
  | some named =>
      dsimp only [Option.getD_some]
      split_ifs with hdiscards
      · have htable : ∀ e ∈ namedTypes, ∀ f ∈ PgType.text :: codedTypes.map Prod.snd, discardsInformation e.2 f = true →
            f.encoding = e.2.encoding := by decide
        obtain ⟨e, hfind, rfl⟩ := Option.map_eq_some_iff.mp hname
        refine htable e (List.mem_of_find?_eq_some hfind) _ ?_ hdiscards
        rw [byCode]
        cases hcode : codedTypes.find? fun e => e.1 = jdbcType with
        | none => exact List.mem_cons_self
        | some f => exact List.mem_cons_of_mem _ (List.mem_map_of_mem (List.mem_of_find?_eq_some hcode))
      · rfl

theorem byName_encoding {typeName : Text} {named : PgType} (h : byName typeName = some named) :
    lookupName typeName ∈ namedTypes.map Prod.fst ∧ (named.encoding = .bytea ↔ lookupName typeName = "bytea".toList) ∧
      (named.encoding = .boolean ↔ lookupName typeName ∈ ["bool".toList, "boolean".toList]) := by
  have htable : ∀ e ∈ namedTypes, (e.2.encoding = .bytea ↔ e.1 = "bytea".toList) ∧
      (e.2.encoding = .boolean ↔ e.1 ∈ ["bool".toList, "boolean".toList]) := by decide
  obtain ⟨e, hfind, rfl⟩ := Option.map_eq_some_iff.mp h
  have he : e.1 = lookupName typeName := by simpa using List.find?_some hfind
  have hmem : e ∈ namedTypes := List.mem_of_find?_eq_some hfind
  rw [← he]
  exact ⟨List.mem_map_of_mem hmem, htable e hmem⟩

/-- The encoding fits the code exactly when the name, if it is known, is of its kind. -/
theorem sameKind_iff (jdbcType : Int) (typeName : Text) :
    SameKind jdbcType typeName ↔ ((pgType jdbcType typeName).encoding = .bytea ↔ jdbcType ∈ hexCodes) ∧
      ((pgType jdbcType typeName).encoding = .boolean ↔ jdbcType ∈ booleanCodes) := by
  rw [pgType_encoding]
  cases hname : byName typeName with
  | none =>
      refine ⟨fun _ => byCode_encoding jdbcType, fun _ hmem => ?_⟩
      obtain ⟨e, he, heq⟩ := List.mem_map.mp hmem
      exact absurd (decide_eq_true heq) (List.find?_eq_none.mp (Option.map_eq_none_iff.mp hname) e he)
  | some named =>
      obtain ⟨hmem, hbytea, hboolean⟩ := byName_encoding hname
      rw [Option.getD_some, hbytea, hboolean]
      exact ⟨fun h => h hmem, fun h _ => h⟩

/-! ### What the client decodes -/

theorem hexBytes_hex (bytes : Bytes) : hexBytes (hex bytes) = some bytes := by
  induction bytes with
  | nil => rfl
  | cons b bytes ih =>
      have hb : b.toNat < 256 := b.toNat_lt
      show (do return UInt8.ofNat ((← characterDigit _) * 16 + (← characterDigit _)) :: (← hexBytes (hex bytes))) = _
      rw [characterDigit_hexDigit (by omega), characterDigit_hexDigit (by omega), ih]
      show some (UInt8.ofNat (b.toNat / 16 * 16 + b.toNat % 16) :: bytes) = some (b :: bytes)
      rw [Nat.div_add_mod', UInt8.ofNat_toNat]

theorem decode_bytea (bytes : Bytes) : decode PgType.bytea.oid (PgType.bytea.encode (hex bytes)) = some (.bytes bytes) := by
  have hencode : PgType.bytea.encode (hex bytes) = Text.asBytes ('\\' :: 'x' :: hex bytes) := rfl
  rw [decode, hencode, fromUtf8_asBytes]
  show (hexBytes (hex bytes)).map PgValue.bytes = _
  rw [hexBytes_hex]
  rfl

theorem decode_bool (b : Bool) :
    decode PgType.bool.oid (PgType.bool.encode (if b then "true".toList else "false".toList)) = some (.bool b) := by
  have hencode : PgType.bool.encode (if b then "true".toList else "false".toList) = Text.asBytes [if b then 't' else 'f'] := by
    cases b <;> rfl
  rw [decode, hencode, fromUtf8_asBytes]
  cases b <;> rfl

/-- Every type that is announced is in one of the tables. -/
theorem pgType_mem (jdbcType : Int) (typeName : Text) :
    pgType jdbcType typeName ∈ PgType.text :: (codedTypes.map Prod.snd ++ namedTypes.map Prod.snd) := by
  have hcode : byCode jdbcType ∈ PgType.text :: (codedTypes.map Prod.snd ++ namedTypes.map Prod.snd) := by
    rw [byCode]
    cases hfind : codedTypes.find? fun e => e.1 = jdbcType with
    | none => exact List.mem_cons_self
    | some e =>
        exact List.mem_cons_of_mem _ (List.mem_append_left _ (List.mem_map_of_mem (List.mem_of_find?_eq_some hfind)))
  rw [pgType]
  cases hname : byName typeName with
  | none => exact hcode
  | some named =>
      dsimp only
      split_ifs
      · exact hcode
      · obtain ⟨e, hfind, rfl⟩ := Option.map_eq_some_iff.mp hname
        exact List.mem_cons_of_mem _ (List.mem_append_right _ (List.mem_map_of_mem (List.mem_of_find?_eq_some hfind)))

/-- One type only has each of the two encodings. -/
theorem pgType_eq (jdbcType : Int) (typeName : Text) :
    ((pgType jdbcType typeName).encoding = .bytea → pgType jdbcType typeName = .bytea) ∧
      ((pgType jdbcType typeName).encoding = .boolean → pgType jdbcType typeName = .bool) := by
  have htable : ∀ t ∈ PgType.text :: (codedTypes.map Prod.snd ++ namedTypes.map Prod.snd),
      (t.encoding = .bytea → t = .bytea) ∧ (t.encoding = .boolean → t = .bool) := by decide
  exact htable _ (pgType_mem jdbcType typeName)

theorem decodes_of_encode {columns : List Column} {row : List (Option Text)} {i : ℕ} {c : Column} {text : Text} {value : PgValue}
    (hcolumn : columns[i]? = some c) (hrow : row[i]? = some (some text))
    (hdecode : decode c.pgType.oid (c.pgType.encode text) = some value) : Decodes columns row i value := by
  refine ⟨⟨c.name, c.pgType.oid, c.pgType.size⟩, c.pgType.encode text, ?_, ?_, hdecode⟩
  · rw [fields, List.getElem?_map, hcolumn]
    rfl
  · rw [encodeRow, List.getElem?_mapIdx, hrow, Option.map_some, hcolumn]
    rfl

/-- **The two halves agree on a column exactly when its name, if PostgreSQL has it, is of the kind of its code.** -/
theorem agrees_iff (jdbcType : Int) (typeName : Text) : Agrees jdbcType typeName ↔ SameKind jdbcType typeName := by
  rw [sameKind_iff]
  constructor
  · intro h
    exact ⟨h.bytea.trans rendersHex_iff, h.boolean.trans rendersBoolean_iff⟩
  · rintro ⟨hbytea, hboolean⟩
    obtain ⟨hisBytea, hisBool⟩ := pgType_eq jdbcType typeName
    refine ⟨hbytea.trans rendersHex_iff.symm, hboolean.trans rendersBoolean_iff.symm, ?_, ?_, ?_⟩
    · rw [rendersHex_iff, rendersBoolean_iff, ← hbytea, ← hboolean]
      cases (pgType jdbcType typeName).encoding <;> simp
    · intro hhex columns row i name cell bytes value hcolumn hbytes hblob hnull hread hrow
      have htype : pgType jdbcType typeName = .bytea := hisBytea (hbytea.mpr (rendersHex_iff.mp hhex))
      obtain hraw | ⟨-, e, hraw⟩ := readRaw_hex (rendersHex_iff.mp hhex) hbytes hblob
      · rw [Values.read, hraw, hnull] at hread
        cases hread
        refine decodes_of_encode hcolumn hrow ?_
        rw [Column.pgType, htype]
        exact decode_bytea bytes
      · rw [Values.read, hraw] at hread
        cases hread
    · intro hrenders columns row i name cell value hcolumn hnull hread hrow
      have htype : pgType jdbcType typeName = .bool := hisBool (hboolean.mpr (rendersBoolean_iff.mp hrenders))
      rw [Values.read, hrenders cell, hnull] at hread
      cases hread
      refine decodes_of_encode hcolumn hrow ?_
      rw [Column.pgType, htype]
      exact decode_bool cell.boolean

/-- A binary column whose type is called timestamp. -/
theorem not_agrees : ¬ ∀ (jdbcType : Int) (typeName : Text), Agrees jdbcType typeName := by
  intro h
  have hbytea := (h Types.binary "timestamp".toList).bytea.mpr (rendersHex_iff.mpr (by decide))
  exact absurd hbytea (by decide)

end Havuz.Jdbc
