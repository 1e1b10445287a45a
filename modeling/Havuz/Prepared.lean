import Mathlib.Data.Finset.Card
import Mathlib.Data.List.TakeWhile
import Mathlib.Logic.Function.Basic
import Mathlib.Tactic.IntervalCases
import Havuz.Protocol

/-!
# Prepared statement rewriting

Reference: `havuz-pg/src/prepared.rs`. A client's statement name is replaced by a global name derived
from the statement text and its parameter types; each backend remembers which global names it has
parsed, and a `Bind` or `Describe` that reaches a backend without the statement is preceded by a
replayed `Parse`.

`sha256` is a parameter throughout: the digest comes from the `sha2` crate. Names and query texts are
kept as the bytes of a valid UTF-8 string.
-/

namespace Havuz

/-- Per-backend cache ceiling. -/
def maxStatementsPerBackend : Nat := 256

inductive PreparedError where
  | malformed (message detail : Text)
  | unknownStatement (name : Bytes)
deriving DecidableEq, Repr

/-- `PreparedError`'s `Display`. -/
def PreparedError.text : PreparedError → Text
  | .malformed message detail =>
      "malformed ".toList ++ message ++ " message: ".toList ++ detail
  | .unknownStatement name =>
      "client bound to unknown prepared statement '".toList ++ fromUtf8Lossy name ++ ['\'']

/-- A statement the client parsed, ready to be replayed onto any backend. -/
structure PreparedStatement where
  /-- Stable name derived from the statement text and parameter types. -/
  globalName : Bytes
  /-- The body of a complete `Parse` message using `globalName`. -/
  parseMessage : Bytes
  sql : Bytes
deriving DecidableEq, Repr

/-- What the relay should do with a message. -/
inductive Rewrite where
  /-- Forward unchanged. -/
  | unchanged
  /-- Forward this instead. -/
  | replace (message : Message)
  /-- Replay `parse` first, then forward `message`. -/
  | replayThen (parse globalName : Bytes) (message : Message)
  /-- A renamed `Parse`. -/
  | parse (globalName : Bytes) (message : Message)
  /-- A `Close` of a statement; the backend cache must forget it too. -/
  | closeStatement (globalName clientName : Bytes) (message : Message)
deriving DecidableEq, Repr

/-! ## The backend cache -/

/-- Which global statements a particular backend has parsed. -/
structure BackendStatements where
  present : Finset Bytes := ∅
  /-- Insertion order, for eviction once the cache is full. -/
  order : List Bytes := []
  /-- The order lists what is present, once each. -/
  nodup : order.Nodup := by simp
  listed : ∀ n, n ∈ order ↔ n ∈ present := by simp
deriving DecidableEq

namespace BackendStatements

def has (b : BackendStatements) (name : Bytes) : Bool := name ∈ b.present

theorem nodup_append (b : BackendStatements) {name : Bytes} (h : name ∉ b.present) :
    (b.order ++ [name]).Nodup := by
  rw [List.nodup_append_comm]
  exact List.nodup_cons.mpr ⟨fun hn => h ((b.listed name).mp hn), b.nodup⟩

theorem listed_append (b : BackendStatements) (name n : Bytes) :
    n ∈ b.order ++ [name] ↔ n ∈ Insert.insert name b.present := by
  simp [b.listed n, or_comm]

/-- What is left of the cache when its oldest name is gone. -/
def evictFrom (b : BackendStatements) {old : Bytes} {rest : List Bytes} (h : b.order = old :: rest) :
    BackendStatements where
  present := b.present.erase old
  order := rest
  nodup := by
    have hnodup := b.nodup
    rw [h] at hnodup
    exact hnodup.of_cons
  listed := by
    intro n
    have hnodup := b.nodup
    rw [h] at hnodup
    have hold : old ∉ rest := (List.nodup_cons.mp hnodup).1
    rw [Finset.mem_erase, ← b.listed n, h, List.mem_cons]
    constructor
    · intro hn
      exact ⟨fun heq => hold (heq ▸ hn), .inr hn⟩
    · rintro ⟨hne, heq | hn⟩
      · exact absurd heq hne
      · exact hn

/-- Add a name that is not there. -/
def push (b : BackendStatements) (name : Bytes) (h : name ∉ b.present) : BackendStatements :=
  ⟨Insert.insert name b.present, b.order ++ [name], b.nodup_append h, b.listed_append name⟩

/-- Record a statement, returning the name that had to be evicted to make room. -/
def insert (b : BackendStatements) (name : Bytes) : BackendStatements × Option Bytes :=
  if h : name ∈ b.present then (b, none)
  else if maxStatementsPerBackend ≤ b.present.card then
    match ho : b.order with
    | old :: _ =>
        ((b.evictFrom ho).push name (fun hn => h (Finset.mem_of_mem_erase hn)), some old)
    | [] => (b.push name h, none)
  else (b.push name h, none)

/-- Forget a statement; one that is not there changes nothing. -/
def remove (b : BackendStatements) (name : Bytes) : BackendStatements where
  present := b.present.erase name
  order := b.order.filter (· ≠ name)
  nodup := b.nodup.filter _
  listed := by
    intro n
    simp [b.listed n, and_comm]

/-- Called after a reset, which deallocates everything server-side. -/
def clear : BackendStatements := {}

@[simp] theorem present_clear : clear.present = ∅ := rfl

@[simp] theorem present_remove (b : BackendStatements) (name : Bytes) :
    (b.remove name).present = b.present.erase name := rfl

/-- An insertion adds the name and takes away exactly what it reports as evicted, which is another name
that was there. -/
theorem insert_cases (b : BackendStatements) (name : Bytes) :
    ((b.insert name).2 = none ∧ (b.insert name).1.present = Insert.insert name b.present) ∨
      ∃ old, (b.insert name).2 = some old ∧ old ∈ b.present ∧ old ≠ name ∧ name ∉ b.present ∧
        (b.insert name).1.present = Insert.insert name (b.present.erase old) := by
  unfold insert
  split
  case isTrue h => exact .inl ⟨rfl, (Finset.insert_eq_of_mem h).symm⟩
  case isFalse h =>
    split
    case isFalse => exact .inl ⟨rfl, rfl⟩
    case isTrue =>
      split
      case h_2 => exact .inl ⟨rfl, rfl⟩
      case h_1 old rest ho =>
        have hold : old ∈ b.present := by
          rw [← b.listed, ho]
          exact List.mem_cons_self
        exact .inr ⟨old, rfl, hold, fun heq => h (heq ▸ hold), h, rfl⟩

end BackendStatements

/-! ## Message bodies -/

/-- Split a NUL-terminated string off the front. -/
def takeCstring (body : Bytes) : Option (Bytes × Bytes) :=
  if body.contains 0 then some (body.takeWhile (· ≠ 0), (body.dropWhile (· ≠ 0)).drop 1) else none

theorem takeCstring_append {name : Bytes} (h : 0 ∉ name) (rest : Bytes) :
    takeCstring (name ++ 0 :: rest) = some (name, rest) := by
  have hname : ∀ b ∈ name, (decide (b ≠ 0)) = true := by
    intro b hb
    rw [decide_eq_true_eq]
    exact fun h0 => h (h0 ▸ hb)
  rw [takeCstring, if_pos (by simp), List.takeWhile_append_of_pos hname,
    List.dropWhile_append_of_pos hname]
  simp

theorem notMem_of_takeCstring {body : Bytes} (h : takeCstring body = none) : (0 : UInt8) ∉ body := by
  intro hmem
  rw [takeCstring, if_pos (by simpa using hmem)] at h
  cases h

/-- The string that was split off holds no NUL. -/
theorem eq_of_takeCstring {body name rest : Bytes} (h : takeCstring body = some (name, rest)) :
    body = name ++ 0 :: rest ∧ 0 ∉ name := by
  unfold takeCstring at h
  split at h
  case isFalse => cases h
  case isTrue hmem =>
    cases h
    have hmem : (0 : UInt8) ∈ body := by simpa using hmem
    refine ⟨?_, fun h0 => ?_⟩
    · have hne : body.dropWhile (· ≠ 0) ≠ [] := by
        rw [Ne, List.dropWhile_eq_nil_iff]
        intro hall
        exact absurd (hall 0 hmem) (by decide)
      have hhead : (body.dropWhile (· ≠ 0)).head hne = 0 := by
        have hnot := List.head_dropWhile_not (fun b : UInt8 => decide (b ≠ 0)) hne
        simpa using hnot
      have hsplit := List.takeWhile_append_dropWhile (p := fun b : UInt8 => decide (b ≠ 0)) (l := body)
      obtain ⟨b, tail, hdrop⟩ := List.exists_cons_of_ne_nil hne
      simp only [hdrop, List.head_cons] at hhead
      rw [hdrop, hhead] at hsplit
      rw [hdrop, List.drop_one, List.tail_cons, hsplit]
    · have hnot := List.mem_takeWhile_imp h0
      simp at hnot

/-- Two lowercase hexadecimal digits, `{byte:02x}`. -/
def hexByte (b : UInt8) : Text :=
  let digit (n : Nat) : Char := "0123456789abcdef".toList.getD n '0'
  [digit (b.toNat / 16), digit (b.toNat % 16)]

section Rewriting

variable (sha256 : Bytes → Bytes)

/-- Deterministic name for a statement, from its text and declared parameter types. -/
def globalName (sql paramTypes : Bytes) : Bytes :=
  Text.asBytes ("havuz_".toList ++ ((sha256 (sql ++ [0] ++ paramTypes)).take 16).flatMap hexByte)

def buildParse (name sql paramTypes : Bytes) : Bytes := name ++ [0] ++ sql ++ [0] ++ paramTypes

/-- The names under which the pooler prepares statements. -/
def IsHavuz (name : Bytes) : Prop := Text.asBytes "havuz_".toList <+: name

instance (name : Bytes) : Decidable (IsHavuz name) := inferInstanceAs (Decidable (_ <+: _))

theorem IsHavuz.ne_nil {name : Bytes} (h : IsHavuz name) : name ≠ [] := by
  rintro rfl
  exact absurd h (by decide)

theorem isHavuz_globalName (sql paramTypes : Bytes) : IsHavuz (globalName sha256 sql paramTypes) := by
  rw [IsHavuz, globalName, Text.asBytes, Text.asBytes, List.flatMap_append]
  exact List.prefix_append _ _

/-- A global name is plain ASCII: no byte of it is NUL. -/
theorem zero_notMem_globalName (sql paramTypes : Bytes) :
    0 ∉ globalName sha256 sql paramTypes := by
  have hall : ("havuz_0123456789abcdef".toList.all fun c => 0 ∉ String.utf8EncodeChar c) = true := by
    decide
  have hdigits : ∀ c ∈ "havuz_0123456789abcdef".toList, 0 ∉ String.utf8EncodeChar c := fun c hc =>
    of_decide_eq_true (List.all_eq_true.mp hall c hc)
  have hhex : ∀ n, "0123456789abcdef".toList.getD n '0' ∈ "havuz_0123456789abcdef".toList := by
    intro n
    by_cases hn : n < 16
    · interval_cases n <;> decide
    · have hnone : "0123456789abcdef".toList[n]? = none := by
        rw [List.getElem?_eq_none_iff]
        show 16 ≤ n
        omega
      rw [List.getD_eq_getElem?_getD, hnone]
      decide
  intro hmem
  obtain ⟨c, hc, hzero⟩ := List.mem_flatMap.mp hmem
  refine hdigits c ?_ hzero
  have hhavuz : ∀ c ∈ "havuz_".toList, c ∈ "havuz_0123456789abcdef".toList := fun c hc =>
    List.mem_append_left "0123456789abcdef".toList hc
  rcases List.mem_append.mp hc with hc | hc
  · exact hhavuz c hc
  · obtain ⟨b, -, hb⟩ := List.mem_flatMap.mp hc
    simp only [hexByte, List.mem_cons, List.not_mem_nil, or_false] at hb
    rcases hb with rfl | rfl
    · exact hhex _
    · exact hhex _

structure ParseParts where
  name : Bytes
  sql : Bytes
  /-- Parameter type block, copied verbatim. -/
  paramTypes : Bytes
deriving DecidableEq, Repr

def ParseParts.decode (body : Bytes) : Except PreparedError ParseParts :=
  match takeCstring body with
  | none => .error (.malformed "Parse".toList "no statement name".toList)
  | some (name, rest) =>
      match takeCstring rest with
      | none => .error (.malformed "Parse".toList "no query text".toList)
      | some (sql, types) =>
          if !isUtf8 name then .error (.malformed "Parse".toList "name is not utf-8".toList)
          else if !isUtf8 sql then .error (.malformed "Parse".toList "query is not utf-8".toList)
          else .ok ⟨name, sql, types⟩

/-- A `Parse` that decodes is what `build_parse` makes of its parts. -/
theorem ParseParts.decode_ok {body : Bytes} {p : ParseParts} (h : decode body = .ok p) :
    ∃ rest, takeCstring body = some (p.name, rest) ∧
      takeCstring rest = some (p.sql, p.paramTypes) := by
  unfold decode at h
  split at h
  case h_1 => cases h
  case h_2 name rest hname =>
    split at h
    case h_1 => cases h
    case h_2 sql types hsql =>
      split_ifs at h
      cases h
      exact ⟨rest, hname, hsql⟩

theorem takeCstring_buildParse {name sql : Bytes} (hname : 0 ∉ name) (hsql : 0 ∉ sql)
    (paramTypes : Bytes) :
    ∃ rest, takeCstring (buildParse name sql paramTypes) = some (name, rest) ∧
      takeCstring rest = some (sql, paramTypes) := by
  refine ⟨sql ++ 0 :: paramTypes, ?_, takeCstring_append hsql _⟩
  rw [buildParse]
  simpa using takeCstring_append hname (sql ++ 0 :: paramTypes)

/-- The parts of a `Parse` can be told from its body. -/
theorem buildParse_inj {name sql sql' types types' : Bytes} (hname : 0 ∉ name) (hsql : 0 ∉ sql)
    (hsql' : 0 ∉ sql') (h : buildParse name sql types = buildParse name sql' types') :
    sql = sql' ∧ types = types' := by
  obtain ⟨rest, hrest, hparts⟩ := takeCstring_buildParse hname hsql types
  obtain ⟨rest', hrest', hparts'⟩ := takeCstring_buildParse hname hsql' types'
  rw [h, hrest'] at hrest
  cases hrest
  rw [hparts'] at hparts
  cases hparts
  exact ⟨rfl, rfl⟩

/-- The statement name in a `Bind`: the second null-terminated string. -/
def bindStatementName (body : Bytes) : Except PreparedError Bytes :=
  match takeCstring body with
  | none => .error (.malformed "Bind".toList "no portal name".toList)
  | some (_, rest) =>
      match takeCstring rest with
      | none => .error (.malformed "Bind".toList "no statement name".toList)
      | some (name, _) =>
          if isUtf8 name then .ok name
          else .error (.malformed "Bind".toList "name is not utf-8".toList)

/-- The `(kind, name)` pair in a `Describe` or `Close`. -/
def describeTarget (body : Bytes) : Except PreparedError (UInt8 × Bytes) :=
  match body with
  | [] => .error (.malformed "Describe/Close".toList "empty body".toList)
  | kind :: rest =>
      match takeCstring rest with
      | none => .error (.malformed "Describe/Close".toList "unterminated name".toList)
      | some (name, _) =>
          if isUtf8 name then .ok (kind, name)
          else .error (.malformed "Describe/Close".toList "name is not utf-8".toList)

theorem describeTarget_ok {body name : Bytes} {kind : UInt8}
    (h : describeTarget body = .ok (kind, name)) :
    ∃ rest back, body = kind :: rest ∧ takeCstring rest = some (name, back) := by
  unfold describeTarget at h
  split at h
  case h_1 => cases h
  case h_2 kind' rest =>
    split at h
    case h_1 => cases h
    case h_2 name' back hrest =>
      split at h
      · cases h
        exact ⟨rest, back, rfl, hrest⟩
      · cases h

/-- Skip `index` strings, then put `replacement` in place of the next one. -/
def replaceFrom (replacement : Bytes) : Nat → Bytes → Except PreparedError Bytes
  | 0, body =>
      match takeCstring body with
      | none => .error (.malformed "message".toList "unterminated string".toList)
      | some (_, rest) => .ok (replacement ++ [0] ++ rest)
  | index + 1, body =>
      match takeCstring body with
      | none => .error (.malformed "message".toList "unterminated string".toList)
      | some (skipped, rest) =>
          (replaceFrom replacement index rest).map (skipped ++ [0] ++ ·)

/-- Replace the `index`-th null-terminated string in `body`. `Describe` and `Close` start with a kind
byte, so their name is at index 0 counting from just after it. -/
def replaceCstring (body : Bytes) (index : Nat) (replacement : Bytes) :
    Except PreparedError Bytes :=
  match body with
  | kind :: c :: rest =>
      if index = 0 ∧ (kind = byte 'S' ∨ kind = byte 'P') then
        (replaceFrom replacement 0 (c :: rest)).map (kind :: ·)
      else replaceFrom replacement index body
  | _ => replaceFrom replacement index body

/-- Renaming the statement of a `Describe` or `Close`. -/
theorem replaceCstring_target {body body' name replacement : Bytes}
    (hname : describeTarget body = .ok (byte 'S', name))
    (h : replaceCstring body 0 replacement = .ok body') :
    ∃ rest, body' = byte 'S' :: (replacement ++ 0 :: rest) := by
  obtain ⟨rest, back, rfl, hrest⟩ := describeTarget_ok hname
  cases rest with
  | nil => cases hrest
  | cons c rest =>
      simp only [replaceCstring, replaceFrom, hrest, Except.map] at h
      cases h
      exact ⟨back, by simp⟩

/-- Renaming the statement of a `Bind`: the portal and what follows the name stay. -/
theorem replaceCstring_bind {body body' name replacement : Bytes}
    (hname : bindStatementName body = .ok name)
    (h : replaceCstring body 1 replacement = .ok body') :
    ∃ portal rest, 0 ∉ portal ∧ body = portal ++ 0 :: (name ++ 0 :: rest) ∧
      body' = portal ++ 0 :: (replacement ++ 0 :: rest) := by
  have hfrom : replaceFrom replacement 1 body = .ok body' := by
    unfold replaceCstring at h
    split at h
    · simpa using h
    · exact h
  unfold bindStatementName at hname
  split at hname
  case h_1 => cases hname
  case h_2 portal rest hportal =>
    split at hname
    case h_1 => cases hname
    case h_2 name' back hrest =>
      split at hname
      case isFalse => cases hname
      case isTrue =>
        cases hname
        obtain ⟨hbody, hnul⟩ := eq_of_takeCstring hportal
        obtain ⟨hrest', -⟩ := eq_of_takeCstring hrest
        simp only [replaceFrom, hportal, hrest, Except.map] at hfrom
        cases hfrom
        exact ⟨portal, back, hnul, by rw [hbody, hrest'], by simp⟩

/-! ## The client's view -/

/-- Per-client-session view of prepared statements. The unnamed statement is never in it. -/
structure ClientStatements where
  byName : Bytes → Option PreparedStatement := fun _ => none
  unnamed : byName [] = none := by rfl

namespace ClientStatements

/-- `ClientStatements::default`: no statement. -/
def new : ClientStatements := {}

/-- Forget a client-side name after a successful `Close`. -/
def forget (s : ClientStatements) (name : Bytes) : ClientStatements :=
  ⟨Function.update s.byName name none, by
    by_cases h : name = []
    · rw [h, Function.update_self]
    · rw [Function.update_of_ne (Ne.symm h), s.unnamed]⟩

/-- Remember a statement under a client-side name. -/
def remember (s : ClientStatements) (name : Bytes) (statement : PreparedStatement)
    (h : name ≠ []) : ClientStatements :=
  ⟨Function.update s.byName name (some statement), by
    rw [Function.update_of_ne (Ne.symm h), s.unnamed]⟩

/-- What a client's `Parse` is remembered as. -/
def statementOf (p : ParseParts) : PreparedStatement :=
  { globalName := globalName sha256 p.sql p.paramTypes
    parseMessage := buildParse (globalName sha256 p.sql p.paramTypes) p.sql p.paramTypes
    sql := p.sql }

/-- Handle a `Parse` from the client. The unnamed statement is passed through. -/
def onParse (s : ClientStatements) (msg : Message) :
    Except PreparedError (Rewrite × ClientStatements) :=
  match ParseParts.decode msg.body with
  | .error e => .error e
  | .ok parsed =>
      if h : parsed.name = [] then .ok (.unchanged, s)
      else
        let statement := statementOf sha256 parsed
        .ok (.parse statement.globalName ⟨byte 'P', statement.parseMessage⟩,
          s.remember parsed.name statement h)

/-- Map the client's name onto the global one, replaying the `Parse` first when this backend has not
seen it. -/
def redirect (s : ClientStatements) (msg : Message) (clientName : Bytes) (fieldIndex : Nat)
    (backend : BackendStatements) : Except PreparedError Rewrite :=
  if clientName = [] then .ok .unchanged
  else
    match s.byName clientName with
    | none => .error (.unknownStatement clientName)
    | some statement =>
        match replaceCstring msg.body fieldIndex statement.globalName with
        | .error e => .error e
        | .ok body =>
            if backend.has statement.globalName then .ok (.replace ⟨msg.tag, body⟩)
            else .ok (.replayThen statement.parseMessage statement.globalName ⟨msg.tag, body⟩)

/-- Handle a `Bind`, whose second field names the statement. -/
def onBind (s : ClientStatements) (msg : Message) (backend : BackendStatements) :
    Except PreparedError Rewrite :=
  match bindStatementName msg.body with
  | .error e => .error e
  | .ok name => s.redirect msg name 1 backend

/-- The message a `Close` forwards: the renamed one, without the replay. -/
def closedMessage (msg : Message) : Rewrite → Option Message
  | .replace m => some m
  | .replayThen _ _ m => some m
  | .unchanged => some msg
  | _ => none

/-- Handle `Describe`/`Close`, which name either a statement or a portal. -/
def onDescribeOrClose (s : ClientStatements) (msg : Message) (backend : BackendStatements) :
    Except PreparedError Rewrite :=
  match describeTarget msg.body with
  | .error e => .error e
  | .ok (kind, name) =>
      if kind ≠ byte 'S' then .ok .unchanged
      else
        match s.redirect msg name 0 backend with
        | .error e => .error e
        | .ok rewritten =>
            if msg.tag = byte 'C' then
              match s.byName name, closedMessage msg rewritten with
              | some statement, some message =>
                  .ok (.closeStatement statement.globalName name message)
              | _, _ => .ok rewritten
            else .ok rewritten

end ClientStatements

/-- Apply prepared-statement rewriting to a client message. -/
def rewritePrepared (msg : Message) (s : ClientStatements) (backend : BackendStatements) :
    Except PreparedError (Rewrite × ClientStatements) :=
  if msg.tag = byte 'P' then s.onParse sha256 msg
  else if msg.tag = byte 'B' then (s.onBind msg backend).map (·, s)
  else if msg.tag = byte 'D' ∨ msg.tag = byte 'C' then (s.onDescribeOrClose msg backend).map (·, s)
  else .ok (.unchanged, s)

/-! ## What a rewrite can be -/

/-- The message a rewrite forwards in place of the client's. -/
def Rewrite.message : Rewrite → Option Message
  | .unchanged => none
  | .replace m => some m
  | .replayThen _ _ m => some m
  | .parse _ m => some m
  | .closeStatement _ _ m => some m

variable {sha256}

/-- A redirected message keeps its tag and names the client's statement by its global name; the replay
in front of it is of that very statement. -/
theorem ClientStatements.redirect_cases {s : ClientStatements} {msg : Message} {name : Bytes}
    {i : Nat} {b : BackendStatements} {rw' : Rewrite} (h : s.redirect msg name i b = .ok rw') :
    (name = [] ∧ rw' = .unchanged) ∨
      ∃ st body, s.byName name = some st ∧ replaceCstring msg.body i st.globalName = .ok body ∧
        ((b.has st.globalName = true ∧ rw' = .replace ⟨msg.tag, body⟩) ∨
          (b.has st.globalName = false ∧
            rw' = .replayThen st.parseMessage st.globalName ⟨msg.tag, body⟩)) := by
  unfold redirect at h
  split at h
  case isTrue hname =>
    cases h
    exact .inl ⟨hname, rfl⟩
  case isFalse =>
    split at h
    case h_1 => cases h
    case h_2 st hst =>
      split at h
      case h_1 => cases h
      case h_2 body hbody =>
        refine .inr ⟨st, body, hst, hbody, ?_⟩
        split at h
        case isTrue hhas =>
          cases h
          exact .inl ⟨hhas, rfl⟩
        case isFalse hhas =>
          cases h
          exact .inr ⟨by simpa using hhas, rfl⟩

theorem ClientStatements.onDescribeOrClose_cases {s : ClientStatements} {msg : Message}
    {b : BackendStatements} {rw' : Rewrite} (h : s.onDescribeOrClose msg b = .ok rw') :
    (rw' = .unchanged ∧ ∃ kind name, describeTarget msg.body = .ok (kind, name) ∧
        (kind ≠ byte 'S' ∨ name = [])) ∨
      ∃ name st body, describeTarget msg.body = .ok (byte 'S', name) ∧ s.byName name = some st ∧
        replaceCstring msg.body 0 st.globalName = .ok body ∧
        ((msg.tag = byte 'C' ∧ rw' = .closeStatement st.globalName name ⟨msg.tag, body⟩) ∨
          (msg.tag ≠ byte 'C' ∧ b.has st.globalName = true ∧ rw' = .replace ⟨msg.tag, body⟩) ∨
          (msg.tag ≠ byte 'C' ∧ b.has st.globalName = false ∧
            rw' = .replayThen st.parseMessage st.globalName ⟨msg.tag, body⟩)) := by
  unfold onDescribeOrClose at h
  split at h
  case h_1 => cases h
  case h_2 kind name htarget =>
    split at h
    case isTrue hkind =>
      cases h
      exact .inl ⟨rfl, kind, name, htarget, .inl hkind⟩
    case isFalse hkind =>
      have hkind : kind = byte 'S' := by simpa using hkind
      subst hkind
      split at h
      case h_1 => cases h
      case h_2 rewritten hredirect =>
        obtain ⟨rfl, rfl⟩ | ⟨st, body, hst, hbody, hcase⟩ := redirect_cases hredirect
        · -- The unnamed statement: nothing is recorded for it, so a Close is passed on as it is.
          refine .inl ⟨?_, _, _, htarget, .inr rfl⟩
          simpa [s.unnamed] using h.symm
        · refine .inr ⟨name, st, body, htarget, hst, hbody, ?_⟩
          obtain ⟨hhas, rfl⟩ | ⟨hhas, rfl⟩ := hcase
          · by_cases hclose : msg.tag = byte 'C'
            · simp only [hclose, if_true, hst, closedMessage] at h
              cases h
              exact .inl ⟨hclose, by rw [hclose]⟩
            · simp only [hclose, if_false] at h
              cases h
              exact .inr (.inl ⟨hclose, hhas, rfl⟩)
          · by_cases hclose : msg.tag = byte 'C'
            · simp only [hclose, if_true, hst, closedMessage] at h
              cases h
              exact .inl ⟨hclose, by rw [hclose]⟩
            · simp only [hclose, if_false] at h
              cases h
              exact .inr (.inr ⟨hclose, hhas, rfl⟩)

/-- Everything `rewrite_prepared` can do with a message. -/
inductive Rewritten (sha256 : Bytes → Bytes) (msg : Message) (s : ClientStatements)
    (b : BackendStatements) : Rewrite → ClientStatements → Prop
  /-- Not a statement message. -/
  | other (h : msg.tag ≠ byte 'P' ∧ msg.tag ≠ byte 'B' ∧ msg.tag ≠ byte 'D' ∧ msg.tag ≠ byte 'C') :
      Rewritten sha256 msg s b .unchanged s
  /-- A `Parse` of the unnamed statement. -/
  | unnamed {p : ParseParts} (h : msg.tag = byte 'P') (hp : ParseParts.decode msg.body = .ok p)
      (hname : p.name = []) : Rewritten sha256 msg s b .unchanged s
  | parse {p : ParseParts} (h : msg.tag = byte 'P') (hp : ParseParts.decode msg.body = .ok p)
      (hname : p.name ≠ []) :
      Rewritten sha256 msg s b
        (.parse (globalName sha256 p.sql p.paramTypes)
          ⟨byte 'P', buildParse (globalName sha256 p.sql p.paramTypes) p.sql p.paramTypes⟩)
        (s.remember p.name (ClientStatements.statementOf sha256 p) hname)
  /-- A `Bind` of the unnamed statement. -/
  | bindUnnamed (h : msg.tag = byte 'B') (hname : bindStatementName msg.body = .ok []) :
      Rewritten sha256 msg s b .unchanged s
  | bind {name body : Bytes} {st : PreparedStatement} (h : msg.tag = byte 'B')
      (hname : bindStatementName msg.body = .ok name) (hst : s.byName name = some st)
      (hbody : replaceCstring msg.body 1 st.globalName = .ok body)
      (hhas : b.has st.globalName = true) : Rewritten sha256 msg s b (.replace ⟨msg.tag, body⟩) s
  | bindReplay {name body : Bytes} {st : PreparedStatement} (h : msg.tag = byte 'B')
      (hname : bindStatementName msg.body = .ok name) (hst : s.byName name = some st)
      (hbody : replaceCstring msg.body 1 st.globalName = .ok body)
      (hhas : b.has st.globalName = false) :
      Rewritten sha256 msg s b (.replayThen st.parseMessage st.globalName ⟨msg.tag, body⟩) s
  /-- A `Describe` or `Close` of a portal or of the unnamed statement. -/
  | passed {kind : UInt8} {name : Bytes} (h : msg.tag = byte 'D' ∨ msg.tag = byte 'C')
      (htarget : describeTarget msg.body = .ok (kind, name)) (hwhat : kind ≠ byte 'S' ∨ name = []) :
      Rewritten sha256 msg s b .unchanged s
  | describe {name body : Bytes} {st : PreparedStatement} (h : msg.tag = byte 'D')
      (htarget : describeTarget msg.body = .ok (byte 'S', name)) (hst : s.byName name = some st)
      (hbody : replaceCstring msg.body 0 st.globalName = .ok body)
      (hhas : b.has st.globalName = true) : Rewritten sha256 msg s b (.replace ⟨msg.tag, body⟩) s
  | describeReplay {name body : Bytes} {st : PreparedStatement} (h : msg.tag = byte 'D')
      (htarget : describeTarget msg.body = .ok (byte 'S', name)) (hst : s.byName name = some st)
      (hbody : replaceCstring msg.body 0 st.globalName = .ok body)
      (hhas : b.has st.globalName = false) :
      Rewritten sha256 msg s b (.replayThen st.parseMessage st.globalName ⟨msg.tag, body⟩) s
  | close {name body : Bytes} {st : PreparedStatement} (h : msg.tag = byte 'C')
      (htarget : describeTarget msg.body = .ok (byte 'S', name)) (hst : s.byName name = some st)
      (hbody : replaceCstring msg.body 0 st.globalName = .ok body) :
      Rewritten sha256 msg s b (.closeStatement st.globalName name ⟨msg.tag, body⟩) s

theorem rewritePrepared_cases {msg : Message} {s s' : ClientStatements} {b : BackendStatements}
    {rw' : Rewrite} (h : rewritePrepared sha256 msg s b = .ok (rw', s')) :
    Rewritten sha256 msg s b rw' s' := by
  unfold rewritePrepared at h
  split at h
  case isTrue htag =>
    unfold ClientStatements.onParse at h
    split at h
    case h_1 => cases h
    case h_2 p hp =>
      split at h
      case isTrue hname =>
        cases h
        exact .unnamed htag hp hname
      case isFalse hname =>
        cases h
        exact .parse htag hp hname
  case isFalse hP =>
    split at h
    case isTrue htag =>
      cases hbind : s.onBind msg b with
      | error e => simp [hbind, Except.map] at h
      | ok rw'' =>
          simp only [hbind, Except.map, Except.ok.injEq, Prod.mk.injEq] at h
          obtain ⟨rfl, rfl⟩ := h
          unfold ClientStatements.onBind at hbind
          split at hbind
          case h_1 => cases hbind
          case h_2 name hname =>
            obtain ⟨rfl, rfl⟩ | ⟨st, body, hst, hbody, ⟨hhas, rfl⟩ | ⟨hhas, rfl⟩⟩ :=
              ClientStatements.redirect_cases hbind
            · exact .bindUnnamed htag hname
            · exact .bind htag hname hst hbody hhas
            · exact .bindReplay htag hname hst hbody hhas
    case isFalse hB =>
      split at h
      case isTrue htag =>
        cases hdc : s.onDescribeOrClose msg b with
        | error e => simp [hdc, Except.map] at h
        | ok rw'' =>
            simp only [hdc, Except.map, Except.ok.injEq, Prod.mk.injEq] at h
            obtain ⟨rfl, rfl⟩ := h
            obtain ⟨rfl, kind, name, htarget, hwhat⟩ | ⟨name, st, body, htarget, hst, hbody, hcase⟩ :=
              ClientStatements.onDescribeOrClose_cases hdc
            · exact .passed htag htarget hwhat
            · obtain ⟨hC, rfl⟩ | ⟨hC, hhas, rfl⟩ | ⟨hC, hhas, rfl⟩ := hcase
              · exact .close hC htarget hst hbody
              · exact .describe (htag.resolve_right hC) htarget hst hbody hhas
              · exact .describeReplay (htag.resolve_right hC) htarget hst hbody hhas
      case isFalse hDC =>
        cases h
        simp only [not_or] at hDC
        exact .other ⟨hP, hB, hDC.1, hDC.2⟩

/-- A rewrite never changes a message's tag. -/
theorem Rewritten.message_tag {msg m : Message} {s s' : ClientStatements} {b : BackendStatements}
    {rw' : Rewrite} (h : Rewritten sha256 msg s b rw' s') (hm : rw'.message = some m) :
    m.tag = msg.tag := by
  cases h <;> cases hm <;> first | rfl | simp_all

end Rewriting

end Havuz
