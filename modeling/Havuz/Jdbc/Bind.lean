import Havuz.Jdbc.Portals
import Havuz.Utf8
import Havuz.Wire

/-!
# The body of a Bind message

Reference: `bind` and the wire decoding helpers of `havuz-jdbc/src/session.rs`, `bind` of `Session.java` and `hex` and
`unhex` of `Values.java`.

Every helper answers something, whatever is left of the body: a short count is zero, a short length is a NULL, a short
value is what there is. `readBind` is the message as PostgreSQL reads it, which has to fit to the last byte.
-/

namespace Havuz.Jdbc

open Lib

/-! ## Bytes as hexadecimal digits -/

def hexDigit (n : ℕ) : Char := Char.ofNat (if n < 10 then '0'.toNat + n else 'a'.toNat + (n - 10))

/-- `hex`, of the session as of the agent. -/
def hex (bytes : Bytes) : Text := bytes.flatMap fun b => [hexDigit (b.toNat / 16), hexDigit (b.toNat % 16)]

/-- `Character.digit` with radix 16, of an ASCII character. -/
def characterDigit (c : Char) : Option ℕ :=
  if '0' ≤ c ∧ c ≤ '9' then some (c.toNat - '0'.toNat)
  else if 'a' ≤ c ∧ c ≤ 'f' then some (c.toNat - 'a'.toNat + 10)
  else if 'A' ≤ c ∧ c ≤ 'F' then some (c.toNat - 'A'.toNat + 10)
  else none

/-- `Integer.parseInt` with radix 16, of two characters. -/
def parseInt (a b : Char) : Option Int :=
  match characterDigit b with
  | none => none
  | some low =>
      if a = '-' then some (-(low : Int))
      else if a = '+' then some low
      else (characterDigit a).map fun high => high * 16 + low

/-- `Values.unhex`. -/
def unhex : Text → Option Bytes
  | a :: b :: t => do return UInt8.ofInt (← parseInt a b) :: (← unhex t)
  | _ => some []

theorem characterDigit_hexDigit : ∀ {n : ℕ}, n < 16 → characterDigit (hexDigit n) = some n := by decide

theorem parseInt_hexDigit {high low : ℕ} (hhigh : high < 16) (hlow : low < 16) :
    parseInt (hexDigit high) (hexDigit low) = some (high * 16 + low) := by
  have hsign : ∀ n < 16, hexDigit n ≠ '-' ∧ hexDigit n ≠ '+' := by decide
  rw [parseInt, characterDigit_hexDigit hlow]
  dsimp only
  rw [if_neg (hsign high hhigh).1, if_neg (hsign high hhigh).2, characterDigit_hexDigit hhigh]
  rfl

/-- The agent gets the bytes the session was sent. -/
theorem unhex_hex (bytes : Bytes) : unhex (hex bytes) = some bytes := by
  induction bytes with
  | nil => rfl
  | cons b bytes ih =>
      have hb : b.toNat < 256 := b.toNat_lt
      have hbyte : UInt8.ofInt ((b.toNat / 16 * 16 + b.toNat % 16 : ℕ) : Int) = b := by
        have hmod : ((b.toNat : Int) % 2 ^ 8).toNat = b.toNat := by omega
        rw [Nat.div_add_mod', UInt8.ofInt, hmod, UInt8.ofNat_toNat]
      have hpair : parseInt (hexDigit (b.toNat / 16)) (hexDigit (b.toNat % 16)) =
          some ((b.toNat / 16 * 16 + b.toNat % 16 : ℕ) : Int) := by
        rw [parseInt_hexDigit (by omega) (by omega)]
        norm_cast
      show (do return UInt8.ofInt (← parseInt _ _) :: (← unhex (hex bytes))) = some (b :: bytes)
      rw [hpair, ih]
      exact congrArg some (congrArg (· :: bytes) hbyte)

/-! ## What the session reads -/

/-- `i16::from_be_bytes`. -/
def i16OfBytes (a b : UInt8) : Int :=
  let n := a.toNat * 256 + b.toNat
  if n < 2 ^ 15 then n else (n : Int) - 2 ^ 16

def takeCstring (rest : Bytes) : Text × Bytes :=
  (fromUtf8Lossy (rest.takeWhile (· ≠ 0)), (rest.dropWhile (· ≠ 0)).drop 1)

def takeI16 : Bytes → Int × Bytes
  | a :: b :: rest => (i16OfBytes a b, rest)
  | _ => (0, [])

def takeI32 : Bytes → Int × Bytes
  | a :: b :: c :: d :: rest => (i32OfBytes a b c d, rest)
  | _ => (-1, [])

def takeI16s : ℕ → Bytes → List Int × Bytes
  | 0, rest => ([], rest)
  | n + 1, rest =>
      let (value, rest) := takeI16 rest
      let (values, rest) := takeI16s n rest
      (value :: values, rest)

/-- A count below zero is none. -/
def takeI16List (rest : Bytes) : List Int × Bytes :=
  let (count, rest) := takeI16 rest
  takeI16s count.toNat rest

def takeBytes (rest : Bytes) (length : ℕ) : Bytes × Bytes := (rest.take length, rest.drop length)

/-- The value at an index goes as bytes. -/
def sentBinary (formats : List Int) (index : ℕ) : Bool :=
  (formats.length == 1 && formats[0]? == some 1) || formats[index]? == some 1

/-- The values, from an index on. -/
def takeValues (formats : List Int) : ℕ → ℕ → Bytes → List Value
  | 0, _, _ => []
  | n + 1, index, rest =>
      let (length, rest) := takeI32 rest
      if length < 0 then .null :: takeValues formats n (index + 1) rest
      else
        let (bytes, rest) := takeBytes rest length.toNat
        let value := if sentBinary formats index then Value.binary (hex bytes) else .text (fromUtf8Lossy bytes)
        value :: takeValues formats n (index + 1) rest

/-- What `bind` has read before it looks at the session: the names of the portal and the statement, and the values. -/
def decodeBind (body : Bytes) : Text × Text × List Value :=
  let (portal, rest) := takeCstring body
  let (statement, rest) := takeCstring rest
  let (formats, rest) := takeI16List rest
  let (count, rest) := takeI16 rest
  (portal, statement, takeValues formats count.toNat 0 rest)

/-- `Session::bind`. -/
def bindBody (body : Bytes) : Serve Unit := do
  if (← get).failed then return
  else
    let (portal, statement, sent) := decodeBind body
    bind portal statement sent

/-! ## What the client says -/

def readCstring (rest : Bytes) : Option (Bytes × Bytes) :=
  if 0 ∈ rest then some (rest.takeWhile (· ≠ 0), (rest.dropWhile (· ≠ 0)).drop 1) else none

/-- PostgreSQL reads the counts of a Bind without a sign. -/
def readI16 : Bytes → Option (ℕ × Bytes)
  | a :: b :: rest => some (a.toNat * 256 + b.toNat, rest)
  | _ => none

def readI16s : ℕ → Bytes → Option (List ℕ × Bytes)
  | 0, rest => some ([], rest)
  | n + 1, rest => do
      let (value, rest) ← readI16 rest
      let (values, rest) ← readI16s n rest
      return (value :: values, rest)

def readI16List (rest : Bytes) : Option (List ℕ × Bytes) := do
  let (count, rest) ← readI16 rest
  readI16s count rest

/-- A length of -1 is a NULL, no other length is below zero. -/
def readValue : Bytes → Option (Option Bytes × Bytes)
  | a :: b :: c :: d :: rest =>
      let length := i32OfBytes a b c d
      if length = -1 then some (none, rest)
      else if 0 ≤ length ∧ length.toNat ≤ rest.length then some (some (rest.take length.toNat), rest.drop length.toNat)
      else none
  | _ => none

def readValues : ℕ → Bytes → Option (List (Option Bytes) × Bytes)
  | 0, rest => some ([], rest)
  | n + 1, rest => do
      let (value, rest) ← readValue rest
      let (values, rest) ← readValues n rest
      return (value :: values, rest)

structure BindMessage where
  portal : Bytes
  statement : Bytes
  formats : List ℕ
  values : List (Option Bytes)
deriving DecidableEq, Repr

/-- A well-formed Bind: every part is there, nothing is behind the formats of the results, and there is one format for
all values or one for each. -/
def readBind (body : Bytes) : Option BindMessage := do
  let (portal, rest) ← readCstring body
  let (statement, rest) ← readCstring rest
  let (formats, rest) ← readI16List rest
  let (count, rest) ← readI16 rest
  let (values, rest) ← readValues count rest
  let (_, rest) ← readI16List rest
  if rest = [] ∧ (formats.length ≤ 1 ∨ formats.length = values.length) then some ⟨portal, statement, formats, values⟩
  else none

namespace BindMessage

/-- The format of a value: text if the client gives none, one for all if it gives one. -/
def format (m : BindMessage) (i : ℕ) : ℕ :=
  match m.formats with
  | [] => 0
  | [f] => f
  | formats => (formats[i]?).getD 0

/-- What is to be text is UTF-8. -/
def textsValid (m : BindMessage) : Prop :=
  isUtf8 m.portal = true ∧ isUtf8 m.statement = true ∧
    ∀ i bytes, m.values[i]? = some (some bytes) → m.format i = 0 → isUtf8 bytes = true

/-- There are two formats, text and binary. -/
def supported (m : BindMessage) : Prop := ∀ f ∈ m.formats, f ≤ 1

/-- The client gives a value for every parameter that is used. -/
def covers (m : BindMessage) (order : List ℕ) : Prop := ∀ slot ∈ order, slot < m.values.length

end BindMessage

/-- A value the agent gets is the one the client gave. -/
def Value.Carries (v : Value) (format : ℕ) : Option Bytes → Prop
  | none => v = .null
  | some bytes =>
      if format = 1 then ∃ digits, v = .binary digits ∧ unhex digits = some bytes
      else ∃ text, v = .text text ∧ text.asBytes = bytes

/-- So are all of them, in the order in which the statement uses them. -/
def BindMessage.Carried (m : BindMessage) (order : List ℕ) (values : List Value) : Prop :=
  values.length = order.length ∧ ∀ (k slot : ℕ), order[k]? = some slot →
    ∃ v sent, values[k]? = some v ∧ m.values[slot]? = some sent ∧ v.Carries (m.format slot) sent

/-- The session a command leaves, however it ends. -/
def stateAfter {α : Type} (c : Serve α) (s : Session) : Session :=
  match c s with
  | .ok _ s' => s'
  | .error _ s' => s'

/-- The client is refused: the rest is skipped until it synchronises, and no portal is made. -/
def Refused (s s' : Session) : Prop := s'.failed = true ∧ s'.portals = s.portals

/-- A Bind delivers what the client gave, or is refused. `execute_asked` says that the values of a portal are what the
agent is sent. -/
structure Honest (s : Session) (body : Bytes) : Prop where
  delivered : ∀ {m : BindMessage} {prepared : Prepared}, readBind body = some m → m.textsValid → m.supported →
    s.failed = false → s.statements.get (fromUtf8Lossy m.statement) = some prepared → m.covers prepared.rewritten.order →
    ∃ values, (stateAfter (bindBody body) s).portals.get (fromUtf8Lossy m.portal) = some ⟨fromUtf8Lossy m.statement, values⟩ ∧
      m.Carried prepared.rewritten.order values
  refused : (∀ m, readBind body = some m → m.textsValid → ∃ prepared,
    s.statements.get (fromUtf8Lossy m.statement) = some prepared ∧ ¬ m.covers prepared.rewritten.order) →
    Refused s (stateAfter (bindBody body) s)

/-! ## When it does -/

/-- The statement a body names, as it is looked up. -/
def statementName (body : Bytes) : Text := (decodeBind body).2.1

/-- The counts fit into 15 bits, or what the statement uses is NULL anyway. With that many formats the second to the
fifth byte of them are taken for the length of a value, which is no NULL. -/
def BindMessage.fits (m : BindMessage) (order : List ℕ) : Prop :=
  (m.formats.length < 2 ^ 15 ∧ m.values.length < 2 ^ 15) ∨
    ∀ slot ∈ order, m.values[slot]? = some none ∧ ¬ (2 ^ 15 ≤ m.formats.length ∧ m.formats.head? = some 1 ∧ slot = 0)

/-- The Bind is not processed, or the statement does not exist, or the message is well-formed, covers the statement and
fits. -/
def Takes (s : Session) (body : Bytes) : Prop :=
  s.failed = true ∨ s.statements.get (statementName body) = none ∨
    ∃ m prepared, readBind body = some m ∧ m.textsValid ∧
      s.statements.get (fromUtf8Lossy m.statement) = some prepared ∧ m.covers prepared.rewritten.order ∧
      (m.supported → m.fits prepared.rewritten.order)

/-! ### What the code does -/

theorem stateAfter_write (reply : Reply) (s : Session) :
    ∃ told writes, stateAfter (write reply) s = { s with told, writes } := by
  unfold stateAfter write
  match s.writes with
  | true :: rest => exact ⟨_, _, rfl⟩
  | false :: rest => exact ⟨_, _, rfl⟩
  | [] => exact ⟨_, _, rfl⟩

variable {s : Session} {body : Bytes} {portal statement : Text} {sent : List Value}

theorem stateAfter_skipped (hfailed : s.failed = true) : stateAfter (bindBody body) s = s := by
  have hrun : bindBody body s = .ok () s := by
    simp only [bindBody, bind_apply, get_apply, hfailed, if_true]
    rfl
  rw [stateAfter, hrun]

theorem stateAfter_unknown (hbody : decodeBind body = (portal, statement, sent)) (hfailed : s.failed = false)
    (hstatement : s.statements.get statement = none) : Refused s (stateAfter (bindBody body) s) := by
  have hrun : ∃ reply, bindBody body s = write reply { s with failed := true } := by
    simp only [bindBody, bind, fail, bind_apply, get_apply, modify_apply, hfailed, hbody, hstatement, Bool.false_eq_true, if_false]
    exact ⟨_, rfl⟩
  obtain ⟨reply, hrun⟩ := hrun
  obtain ⟨told, writes, hwrite⟩ := stateAfter_write reply { s with failed := true }
  rw [stateAfter, hrun, ← stateAfter, hwrite]
  exact ⟨rfl, rfl⟩

theorem stateAfter_bound {prepared : Prepared} (hbody : decodeBind body = (portal, statement, sent)) (hfailed : s.failed = false)
    (hstatement : s.statements.get statement = some prepared) :
    (stateAfter (bindBody body) s).failed = false ∧ (stateAfter (bindBody body) s).portals.get portal =
      some ⟨statement, prepared.rewritten.order.map fun slot => (sent[slot]?).getD .null⟩ := by
  obtain ⟨told, writes, hwrite⟩ := stateAfter_write .bindComplete
    { s with portals := s.portals.insert portal ⟨statement, prepared.rewritten.order.map fun slot => (sent[slot]?).getD .null⟩ }
  have hrun : bindBody body s = write .bindComplete { s with
      portals := s.portals.insert portal ⟨statement, prepared.rewritten.order.map fun slot => (sent[slot]?).getD .null⟩ } := by
    simp only [bindBody, bind, bind_apply, get_apply, set_apply, hfailed, hbody, hstatement, Bool.false_eq_true, if_false]
  rw [stateAfter, hrun, ← stateAfter, hwrite]
  exact ⟨hfailed, by rw [SortedMap.get_insert, if_pos rfl]⟩

/-! ### Reading a well-formed message -/

def signed (n : ℕ) : Int := if n < 2 ^ 15 then n else (n : Int) - 2 ^ 16

theorem signed_toNat {n : ℕ} (h : n < 2 ^ 16) : (signed n).toNat = if n < 2 ^ 15 then n else 0 := by
  rw [signed]
  split_ifs <;> omega

theorem signed_eq_one {n : ℕ} (h : n < 2 ^ 16) : signed n = 1 ↔ n = 1 := by
  rw [signed]
  split_ifs <;> omega

theorem readI16_some {rest rest' : Bytes} {n : ℕ} (h : readI16 rest = some (n, rest')) :
    n < 2 ^ 16 ∧ takeI16 rest = (signed n, rest') := by
  match rest, h with
  | a :: b :: rest, h =>
      cases h
      have ha : a.toNat < 256 := a.toNat_lt
      have hb : b.toNat < 256 := b.toNat_lt
      exact ⟨by omega, rfl⟩

theorem readI16s_succ {n : ℕ} {rest rest' : Bytes} {values : List ℕ} (h : readI16s (n + 1) rest = some (values, rest')) :
    ∃ v vs rest₁, values = v :: vs ∧ readI16 rest = some (v, rest₁) ∧ readI16s n rest₁ = some (vs, rest') := by
  obtain ⟨⟨v, rest₁⟩, hv, h⟩ := Option.bind_eq_some_iff.mp h
  obtain ⟨⟨vs, rest₂⟩, hvs, h⟩ := Option.bind_eq_some_iff.mp h
  cases h
  exact ⟨v, vs, rest₁, rfl, hv, hvs⟩

theorem readI16s_some {n : ℕ} {rest rest' : Bytes} {values : List ℕ} (h : readI16s n rest = some (values, rest')) :
    values.length = n ∧ (∀ v ∈ values, v < 2 ^ 16) ∧ takeI16s n rest = (values.map signed, rest') := by
  induction n generalizing rest values with
  | zero =>
      cases h
      exact ⟨rfl, nofun, rfl⟩
  | succ n ih =>
      obtain ⟨v, vs, rest₁, rfl, hv, hvs⟩ := readI16s_succ h
      obtain ⟨hlt, htake⟩ := readI16_some hv
      obtain ⟨hlen, hall, htakes⟩ := ih hvs
      refine ⟨by rw [List.length_cons, hlen], List.forall_mem_cons.mpr ⟨hlt, hall⟩, ?_⟩
      rw [takeI16s, htake]
      dsimp only
      rw [htakes]
      rfl

theorem readI16List_some {rest rest' : Bytes} {values : List ℕ} (h : readI16List rest = some (values, rest')) :
    values.length < 2 ^ 16 ∧ (∀ v ∈ values, v < 2 ^ 16) ∧
      (values.length < 2 ^ 15 → takeI16List rest = (values.map signed, rest')) := by
  obtain ⟨⟨n, rest₁⟩, hn, h⟩ := Option.bind_eq_some_iff.mp h
  obtain ⟨hlt, htake⟩ := readI16_some hn
  obtain ⟨rfl, hall, htakes⟩ := readI16s_some h
  refine ⟨hlt, hall, fun hsmall => ?_⟩
  rw [takeI16List, htake]
  dsimp only
  rw [signed_toNat hlt, if_pos hsmall, htakes]

/-- What is sent of a value. -/
def Value.pushed (binary : Bool) : Option Bytes → Value
  | none => .null
  | some bytes => if binary then .binary (hex bytes) else .text (fromUtf8Lossy bytes)

theorem readValue_some {formats : List Int} {n index : ℕ} {rest rest' : Bytes} {value : Option Bytes}
    (h : readValue rest = some (value, rest')) :
    takeValues formats (n + 1) index rest = Value.pushed (sentBinary formats index) value :: takeValues formats n (index + 1) rest' := by
  match rest, h with
  | a :: b :: c :: d :: rest, h =>
      rw [readValue] at h
      rw [takeValues, takeI32]
      dsimp only
      split_ifs at h with hnull hlength
      · cases h
        rw [hnull, if_pos (by decide)]
        rfl
      · cases h
        rw [if_neg (by omega)]
        rfl

theorem readValues_some {formats : List Int} {n index : ℕ} {rest rest' : Bytes} {values : List (Option Bytes)}
    (h : readValues n rest = some (values, rest')) :
    values.length = n ∧ ∀ k : ℕ, (takeValues formats n index rest)[k]? =
      values[k]?.map (Value.pushed (sentBinary formats (index + k))) := by
  induction n generalizing index rest values with
  | zero =>
      cases h
      exact ⟨rfl, fun k => rfl⟩
  | succ n ih =>
      obtain ⟨⟨v, rest₁⟩, hv, h⟩ := Option.bind_eq_some_iff.mp h
      obtain ⟨⟨vs, rest₂⟩, hvs, h⟩ := Option.bind_eq_some_iff.mp h
      cases h
      obtain ⟨hlen, hget⟩ := @ih (index + 1) _ _ hvs
      refine ⟨by rw [List.length_cons, hlen], fun k => ?_⟩
      rw [readValue_some hv]
      cases k with
      | zero => rfl
      | succ k =>
          rw [List.getElem?_cons_succ, List.getElem?_cons_succ, hget, Nat.add_right_comm]
          rfl

/-- The session takes a value for binary where the client says so. -/
theorem sentBinary_iff {m : BindMessage} (hformats : ∀ f ∈ m.formats, f < 2 ^ 16) (i : ℕ) :
    sentBinary (m.formats.map signed) i = true ↔ m.format i = 1 := by
  rw [sentBinary, BindMessage.format]
  match hm : m.formats with
  | [] => simp
  | [f] =>
      have hf : signed f = 1 ↔ f = 1 := signed_eq_one (hformats f (by rw [hm]; exact List.mem_cons_self))
      cases i <;> simp [hf]
  | f :: g :: fs =>
      have hmap : ((f :: g :: fs).map signed)[i]? = (f :: g :: fs)[i]?.map signed := List.getElem?_map
      rw [hmap]
      cases hget : (f :: g :: fs)[i]? with
      | none => simp [hget]
      | some v =>
          have hv : signed v = 1 ↔ v = 1 := signed_eq_one (hformats v (by rw [hm]; exact List.mem_of_getElem? hget))
          simp [hget, hv]

theorem carries_pushed {binary : Bool} {format : ℕ} {value : Option Bytes} (hbinary : binary = true ↔ format = 1)
    (hvalid : ∀ bytes, value = some bytes → format ≠ 1 → isUtf8 bytes = true) :
    (Value.pushed binary value).Carries format value := by
  cases value with
  | none => rfl
  | some bytes =>
      rw [Value.Carries, Value.pushed]
      by_cases hformat : format = 1
      · rw [if_pos hformat, if_pos (hbinary.mpr hformat)]
        exact ⟨_, rfl, unhex_hex bytes⟩
      · rw [if_neg hformat, if_neg (mt hbinary.mp hformat)]
        exact ⟨_, rfl, asBytes_fromUtf8Lossy (hvalid bytes rfl hformat)⟩

theorem readCstring_some {rest rest' text : Bytes} (h : readCstring rest = some (text, rest')) :
    takeCstring rest = (fromUtf8Lossy text, rest') := by
  rw [readCstring] at h
  split_ifs at h
  cases h
  rfl

/-- The parts of a well-formed message, as the session reads them. -/
theorem readBind_some {body : Bytes} {m : BindMessage} (h : readBind body = some m) :
    ∃ rest : Bytes, decodeBind body = (fromUtf8Lossy m.portal, fromUtf8Lossy m.statement,
        takeValues (takeI16List rest).1 (takeI16 (takeI16List rest).2).1.toNat 0 (takeI16 (takeI16List rest).2).2) ∧
      (m.formats.length ≤ 1 ∨ m.formats.length = m.values.length) ∧
      ∃ rest₁ rest₂ rest₃ : Bytes, readI16List rest = some (m.formats, rest₁) ∧
        readI16 rest₁ = some (m.values.length, rest₂) ∧ readValues m.values.length rest₂ = some (m.values, rest₃) := by
  obtain ⟨⟨portal, rest₁⟩, hportal, h⟩ := Option.bind_eq_some_iff.mp h
  obtain ⟨⟨statement, rest₂⟩, hstatement, h⟩ := Option.bind_eq_some_iff.mp h
  obtain ⟨⟨formats, rest₃⟩, hformats, h⟩ := Option.bind_eq_some_iff.mp h
  obtain ⟨⟨count, rest₄⟩, hcount, h⟩ := Option.bind_eq_some_iff.mp h
  obtain ⟨⟨values, rest₅⟩, hvalues, h⟩ := Option.bind_eq_some_iff.mp h
  obtain ⟨⟨results, rest₆⟩, hresults, h⟩ := Option.bind_eq_some_iff.mp h
  dsimp only at h
  split_ifs at h with hshape
  cases h
  obtain ⟨rfl, -⟩ := @readValues_some [] _ 0 _ _ _ hvalues
  refine ⟨rest₂, ?_, hshape.2, rest₃, rest₄, rest₅, hformats, hcount, hvalues⟩
  rw [decodeBind, readCstring_some hportal]
  dsimp only
  rw [readCstring_some hstatement]

/-- The values of a message whose counts fit. -/
theorem decodeBind_small {body : Bytes} {m : BindMessage} (h : readBind body = some m) (hformats : m.formats.length < 2 ^ 15)
    (hvalues : m.values.length < 2 ^ 15) (slot : ℕ) :
    (decodeBind body).2.2[slot]? = m.values[slot]?.map (Value.pushed (sentBinary (m.formats.map signed) slot)) := by
  obtain ⟨rest, hdecode, -, rest₁, rest₂, rest₃, hread, hcount, hread'⟩ := readBind_some h
  obtain ⟨-, -, htake⟩ := readI16List_some hread
  obtain ⟨hlt, htake'⟩ := readI16_some hcount
  obtain ⟨-, hget⟩ := @readValues_some (m.formats.map signed) _ 0 _ _ _ hread'
  rw [hdecode, htake hformats, htake']
  dsimp only
  rw [signed_toNat hlt, if_pos hvalues, hget, Nat.zero_add]

/-- A count of values that does not fit is none. -/
theorem decodeBind_largeValues {body : Bytes} {m : BindMessage} (h : readBind body = some m)
    (hformats : m.formats.length < 2 ^ 15) (hvalues : ¬ m.values.length < 2 ^ 15) : (decodeBind body).2.2 = [] := by
  obtain ⟨rest, hdecode, -, rest₁, rest₂, rest₃, hread, hcount, -⟩ := readBind_some h
  obtain ⟨-, -, htake⟩ := readI16List_some hread
  obtain ⟨hlt, htake'⟩ := readI16_some hcount
  rw [hdecode, htake hformats, htake']
  dsimp only
  rw [signed_toNat hlt, if_neg hvalues]
  rfl

/-- With a count of formats that does not fit, the formats are read as the values. -/
theorem decodeBind_largeFormats {body : Bytes} {m : BindMessage} (h : readBind body = some m) (hsupported : m.supported)
    (hformats : ¬ m.formats.length < 2 ^ 15) :
    (m.formats.head? ≠ some 1 ∧ (decodeBind body).2.2 = []) ∨
      m.formats.head? = some 1 ∧ ∃ text, (decodeBind body).2.2 = [.text text] := by
  obtain ⟨rest, hdecode, -, rest₁, rest₂, rest₃, hread, -⟩ := readBind_some h
  obtain ⟨⟨n, tail⟩, hn, hread⟩ := Option.bind_eq_some_iff.mp hread
  obtain ⟨hlt, htake⟩ := readI16_some hn
  obtain ⟨hlen, -, -⟩ := readI16s_some hread
  have htakeList : takeI16List rest = ([], tail) := by
    rw [takeI16List, htake]
    dsimp only
    rw [signed_toNat hlt, if_neg (by omega)]
    rfl
  rw [hdecode, htakeList]
  dsimp only
  obtain ⟨n, rfl⟩ : ∃ k, n = k + 3 := ⟨n - 3, by omega⟩
  -- the first three formats
  obtain ⟨f, fs, tail₁, hmf, hf, hfs⟩ := readI16s_succ hread
  obtain ⟨g, gs, tail₂, rfl, hg, hgs⟩ := readI16s_succ hfs
  obtain ⟨i, is, tail₃, rfl, hi, -⟩ := readI16s_succ hgs
  have hfle : f ≤ 1 := hsupported f (by simp [hmf])
  have hgle : g ≤ 1 := hsupported g (by simp [hmf])
  obtain ⟨hflt, hftake⟩ := readI16_some hf
  rw [hftake]
  dsimp only
  rw [signed_toNat hflt, if_pos (by omega), hmf, List.head?_cons]
  obtain rfl | rfl : f = 0 ∨ f = 1 := by omega
  · exact .inl ⟨by simp, rfl⟩
  · refine .inr ⟨rfl, ?_⟩
    match tail₁, tail₂, hg, hi with
    | a :: b :: c :: d :: rest, tail₂, hg, hi =>
        cases hg
        have hlength : 0 ≤ i32OfBytes a b c d := by
          have hc : c.toNat < 256 := c.toNat_lt
          have hd : d.toNat < 256 := d.toNat_lt
          rw [i32OfBytes]
          split_ifs <;> omega
        rw [takeValues, takeI32]
        dsimp only
        rw [if_neg (by omega)]
        exact ⟨_, rfl⟩

/-! ### The condition is exact -/

theorem BindMessage.supported.format {m : BindMessage} (h : m.supported) (i : ℕ) : m.format i ≤ 1 := by
  rw [BindMessage.format]
  split
  next => exact Nat.zero_le _
  next f hm => exact h f (by rw [hm]; exact List.mem_cons_self)
  next =>
    cases hget : m.formats[i]? with
    | none => exact Nat.zero_le _
    | some f => exact h f (List.mem_of_getElem? hget)

/-- A value arrives if the counts fit, and otherwise only where NULL is right. -/
theorem carries_iff {m : BindMessage} (hread : readBind body = some m) (hvalid : m.textsValid) (hsupported : m.supported)
    {slot : ℕ} {value : Option Bytes} (hslot : m.values[slot]? = some value) :
    (((decodeBind body).2.2[slot]?).getD .null).Carries (m.format slot) value ↔
      (m.formats.length < 2 ^ 15 ∧ m.values.length < 2 ^ 15) ∨
        value = none ∧ ¬ (2 ^ 15 ≤ m.formats.length ∧ m.formats.head? = some 1 ∧ slot = 0) := by
  have hnull : Value.null.Carries (m.format slot) value ↔ value = none := by
    cases value with
    | none => exact ⟨fun _ => rfl, fun _ => rfl⟩
    | some bytes =>
        rw [Value.Carries]
        split_ifs <;> simp
  by_cases hformats : m.formats.length < 2 ^ 15
  · by_cases hvalues : m.values.length < 2 ^ 15
    · refine ⟨fun _ => .inl ⟨hformats, hvalues⟩, fun _ => ?_⟩
      rw [decodeBind_small hread hformats hvalues, hslot]
      refine carries_pushed (sentBinary_iff (fun f hf => ?_) slot) fun bytes hbytes hformat => ?_
      · have hle := hsupported f hf
        omega
      · have hle := hsupported.format slot
        exact hvalid.2.2 slot bytes (by rw [hslot, hbytes]) (by omega)
    · rw [decodeBind_largeValues hread hformats hvalues]
      show Value.null.Carries (m.format slot) value ↔ _
      rw [hnull]
      exact ⟨fun hnone => .inr ⟨hnone, fun hlarge => Nat.not_le_of_lt hformats hlarge.1⟩,
        fun h => h.elim (fun hfits => absurd hfits.2 hvalues) And.left⟩
  · have hlarge : 2 ^ 15 ≤ m.formats.length := Nat.le_of_not_lt hformats
    obtain ⟨hhead, hsent⟩ | ⟨hhead, text, hsent⟩ := decodeBind_largeFormats hread hsupported hformats
    · rw [hsent]
      show Value.null.Carries (m.format slot) value ↔ _
      rw [hnull]
      exact ⟨fun hnone => .inr ⟨hnone, fun h => hhead h.2.1⟩, fun h => h.elim (fun hfits => absurd hfits.1 hformats) And.left⟩
    · rw [hsent]
      cases slot with
      | succ slot =>
          show Value.null.Carries (m.format (slot + 1)) value ↔ _
          rw [hnull]
          exact ⟨fun hnone => .inr ⟨hnone, nofun⟩, fun h => h.elim (fun hfits => absurd hfits.1 hformats) And.left⟩
      | zero =>
          refine ⟨fun hcarries => ?_, fun h => h.elim (fun hfits => absurd hfits.1 hformats) fun h => absurd ⟨hlarge, hhead, rfl⟩ h.2⟩
          -- the first value is to be binary, and it is text that is sent
          have hformat : m.format 0 = 1 := by
            match hm : m.formats with
            | [] => rw [hm] at hhead; cases hhead
            | [f] => rw [hm] at hlarge; simp at hlarge
            | f :: g :: fs =>
                rw [hm, List.head?_cons] at hhead
                rw [BindMessage.format, hm]
                exact Option.some.inj hhead
          rw [hformat] at hcarries
          cases value with
          | none => cases hcarries
          | some bytes =>
              obtain ⟨digits, hdigits, -⟩ := hcarries
              cases hdigits

/-- **A Bind delivers the values or is refused exactly when it is skipped, names no statement, or is well-formed, covers
its statement and has counts that fit.** -/
theorem honest_iff (s : Session) (body : Bytes) : Honest s body ↔ Takes s body := by
  rcases hdecode : decodeBind body with ⟨portal, statement, sent⟩
  have hname : statementName body = statement := by rw [statementName, hdecode]
  have hnames : ∀ {m : BindMessage}, readBind body = some m →
      portal = fromUtf8Lossy m.portal ∧ statement = fromUtf8Lossy m.statement := by
    intro m hread
    obtain ⟨rest, hsame, -⟩ := readBind_some hread
    cases hdecode.symm.trans hsame
    exact ⟨rfl, rfl⟩
  cases hfailed : s.failed with
  | true =>
      refine ⟨fun _ => .inl hfailed, fun _ => ⟨fun _ _ _ hserving _ _ => ?_, fun _ => ?_⟩⟩
      · cases hfailed.symm.trans hserving
      · rw [stateAfter_skipped hfailed]
        exact ⟨hfailed, rfl⟩
  | false =>
      cases hstatement : s.statements.get statement with
      | none =>
          refine ⟨fun _ => .inr (.inl (by rw [hname, hstatement])), fun _ => ⟨fun hread _ _ _ hget _ => ?_, fun _ =>
            stateAfter_unknown hdecode hfailed hstatement⟩⟩
          rw [← (hnames hread).2, hstatement] at hget
          cases hget
      | some prepared =>
          obtain ⟨hserving, hportal⟩ := stateAfter_bound hdecode hfailed hstatement
          have hnot : ¬ Refused s (stateAfter (bindBody body) s) := fun h => by cases hserving.symm.trans h.1
          constructor
          · intro h
            -- what is not refused is well-formed and covers the statement
            have hformed : ∃ m, readBind body = some m ∧ m.textsValid ∧ m.covers prepared.rewritten.order := by
              by_contra hnone
              refine hnot (h.refused fun m hread hvalid => ⟨prepared, ?_, fun hcovers => hnone ⟨m, hread, hvalid, hcovers⟩⟩)
              rw [← (hnames hread).2, hstatement]
            obtain ⟨m, hread, hvalid, hcovers⟩ := hformed
            obtain ⟨rfl, rfl⟩ := hnames hread
            refine .inr (.inr ⟨m, prepared, hread, hvalid, hstatement, hcovers, fun hsupported => ?_⟩)
            obtain ⟨values, hvalues, hcarried⟩ := h.delivered hread hvalid hsupported hfailed hstatement hcovers
            cases hvalues.symm.trans hportal
            rw [BindMessage.fits, or_iff_not_imp_left]
            intro hlarge slot hslot
            obtain ⟨k, hk⟩ := List.getElem?_of_mem hslot
            obtain ⟨v, given, hv, hgiven, hcarries⟩ := hcarried.2 k slot hk
            rw [List.getElem?_map, hk] at hv
            obtain rfl := Option.some.inj hv
            have hsent : sent = (decodeBind body).2.2 := by rw [hdecode]
            rw [hsent] at hcarries
            obtain ⟨rfl, hfirst⟩ := ((carries_iff hread hvalid hsupported hgiven).mp hcarries).resolve_left hlarge
            exact ⟨hgiven, hfirst⟩
          · rintro (hskipped | hunknown | ⟨m, prepared', hread, hvalid, hget, hcovers, hfits⟩)
            · cases hfailed.symm.trans hskipped
            · rw [hname, hstatement] at hunknown
              cases hunknown
            obtain ⟨rfl, rfl⟩ := hnames hread
            obtain rfl := Option.some.inj (hstatement.symm.trans hget)
            refine ⟨fun {m' prepared'} hread' _ hsupported _ hget' _ => ?_, fun hfaulty => ?_⟩
            · obtain rfl := Option.some.inj (hread.symm.trans hread')
              obtain rfl := Option.some.inj (hstatement.symm.trans hget')
              refine ⟨_, hportal, List.length_map _, fun k slot hk => ?_⟩
              have hslot : slot ∈ prepared.rewritten.order := List.mem_of_getElem? hk
              refine ⟨_, m.values.get ⟨slot, hcovers slot hslot⟩, by rw [List.getElem?_map, hk]; rfl,
                List.getElem?_eq_getElem (hcovers slot hslot), ?_⟩
              have hsent : sent = (decodeBind body).2.2 := by rw [hdecode]
              rw [hsent]
              refine (carries_iff hread hvalid hsupported (List.getElem?_eq_getElem _)).mpr ?_
              refine (hfits hsupported).imp_right fun hnull => ?_
              obtain ⟨hnone, hfirst⟩ := hnull slot hslot
              exact ⟨Option.some.inj ((List.getElem?_eq_getElem _).symm.trans hnone), hfirst⟩
            · obtain ⟨prepared', hget', hshort⟩ := hfaulty m hread hvalid
              obtain rfl := Option.some.inj (hstatement.symm.trans hget')
              exact absurd hcovers hshort

/-- A body that ends behind the names makes a portal with a NULL in it. -/
theorem not_honest :
    ¬ ∀ (s : Session) (body : Bytes), Honest s body := by
  intro h
  have hrefused := (h { Session.opened .opaque_ .session with
      statements := SortedMap.empty.insert [] ⟨toJdbc "select $1".toList, "select $1".toList, [], 1⟩ } [0, 0]).refused
    (fun m hread => by cases hread)
  exact Bool.false_ne_true hrefused.1

end Havuz.Jdbc
