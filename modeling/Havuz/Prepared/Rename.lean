import Mathlib
import Havuz.Codec
import Havuz.Prepared

/-!
# What renaming does to a message

Reference: `ClientStatements` and the body helpers of `havuz-pg/src/prepared.rs`.

`BindRequest.read`, `TargetRequest.read` and `ParseRequest.read` are the messages as PostgreSQL reads them, to the last
byte. `renaming_changes_the_name` says that what is forwarded is read as what the client sent under another name, whatever
stands behind the name. A body is only looked at as far as its names: behind them it may be anything, and is passed on.
-/

namespace Havuz

open Lib

/-! ## The messages as PostgreSQL reads them -/

/-- A count, and as many elements. -/
def readCounted {α : Type} (read : Bytes → Option (α × Bytes)) (body : Bytes) : Option (List α × Bytes) :=
  match Jdbc.readI16 body with
  | none => none
  | some (count, rest) => readMany read count rest

structure BindRequest where
  portal : Bytes
  statement : Bytes
  formats : List ℕ
  values : List (Option Bytes)
  resultFormats : List ℕ
deriving DecidableEq, Repr

namespace BindRequest

/-- What follows the names: formats, values and the formats of the results, and one format for all values or one for
each. -/
def readTail (body : Bytes) : Option (List ℕ × List (Option Bytes) × List ℕ) :=
  match readCounted Jdbc.readI16 body with
  | none => none
  | some (formats, rest) =>
      match readCounted Jdbc.readValue rest with
      | none => none
      | some (values, rest) =>
          match readCounted Jdbc.readI16 rest with
          | some (resultFormats, []) =>
              if formats.length ≤ 1 ∨ formats.length = values.length then some (formats, values, resultFormats) else none
          | _ => none

def read (body : Bytes) : Option BindRequest :=
  match takeCstring body with
  | none => none
  | some (portal, rest) =>
      match takeCstring rest with
      | none => none
      | some (statement, rest) => (readTail rest).map fun t => ⟨portal, statement, t.1, t.2.1, t.2.2⟩

/-- The same request of another statement. -/
def renamed (g : Bytes) (r : BindRequest) : BindRequest := { r with statement := g }

theorem read_names {portal name : Bytes} (hportal : 0 ∉ portal) (hname : 0 ∉ name) (rest : Bytes) :
    read (portal ++ 0 :: (name ++ 0 :: rest)) = (readTail rest).map fun t => ⟨portal, name, t.1, t.2.1, t.2.2⟩ := by
  rw [read, takeCstring_append hportal]
  dsimp only
  rw [takeCstring_append hname]

theorem read_renamed {portal name g : Bytes} (hportal : 0 ∉ portal) (hname : 0 ∉ name) (hg : 0 ∉ g) (rest : Bytes) :
    read (portal ++ 0 :: (g ++ 0 :: rest)) = (read (portal ++ 0 :: (name ++ 0 :: rest))).map (renamed g) := by
  rw [read_names hportal hg, read_names hportal hname, Option.map_map]
  rfl

end BindRequest

/-- A `Describe` or a `Close`. -/
structure TargetRequest where
  kind : UInt8
  name : Bytes
deriving DecidableEq, Repr

namespace TargetRequest

def read (body : Bytes) : Option TargetRequest :=
  match body with
  | [] => none
  | kind :: rest =>
      match takeCstring rest with
      | some (name, []) => if kind = byte 'S' ∨ kind = byte 'P' then some ⟨kind, name⟩ else none
      | _ => none

def renamed (g : Bytes) (r : TargetRequest) : TargetRequest := { r with name := g }

theorem read_renamed {name g : Bytes} (hname : 0 ∉ name) (hg : 0 ∉ g) (kind : UInt8) (rest : Bytes) :
    read (kind :: (g ++ 0 :: rest)) = (read (kind :: (name ++ 0 :: rest))).map (renamed g) := by
  rw [read, read, takeCstring_append hname, takeCstring_append hg]
  cases rest with
  | nil =>
      dsimp only
      split <;> rfl
  | cons b rest => rfl

end TargetRequest

structure ParseRequest where
  name : Bytes
  query : Bytes
  paramTypes : List ℤ
deriving DecidableEq, Repr

namespace ParseRequest

def read (body : Bytes) : Option ParseRequest :=
  match takeCstring body with
  | none => none
  | some (name, rest) =>
      match takeCstring rest with
      | none => none
      | some (query, rest) =>
          match readCounted getI32 rest with
          | some (types, []) => some ⟨name, query, types⟩
          | _ => none

def renamed (g : Bytes) (r : ParseRequest) : ParseRequest := { r with name := g }

theorem read_buildParse {name sql : Bytes} (hname : 0 ∉ name) (hsql : 0 ∉ sql) (types : Bytes) :
    read (buildParse name sql types) =
      match readCounted getI32 types with
      | some (types, []) => some ⟨name, sql, types⟩
      | _ => none := by
  obtain ⟨rest, hrest, hparts⟩ := takeCstring_buildParse hname hsql types
  rw [read, hrest]
  dsimp only
  rw [hparts]

theorem read_renamed {name g sql : Bytes} (hname : 0 ∉ name) (hg : 0 ∉ g) (hsql : 0 ∉ sql) (types : Bytes) :
    read (buildParse g sql types) = (read (buildParse name sql types)).map (renamed g) := by
  rw [read_buildParse hname hsql, read_buildParse hg hsql]
  split <;> rfl

end ParseRequest

/-! ## Bodies, as far as they are looked at -/

theorem bindStatementName_iff {body name : Bytes} :
    bindStatementName body = .ok name ↔
      ∃ portal rest, 0 ∉ portal ∧ 0 ∉ name ∧ isUtf8 name = true ∧ body = portal ++ 0 :: (name ++ 0 :: rest) := by
  refine ⟨fun h => ?_, ?_⟩
  · unfold bindStatementName at h
    split at h
    case h_1 => cases h
    case h_2 portal rest hportal =>
      split at h
      case h_1 => cases h
      case h_2 name' back hname =>
        split at h
        case isFalse => cases h
        case isTrue hutf8 =>
          obtain rfl := Except.ok.inj h
          obtain ⟨rfl, hnul⟩ := eq_of_takeCstring hportal
          obtain ⟨rfl, hnul'⟩ := eq_of_takeCstring hname
          exact ⟨portal, back, hnul, hnul', hutf8, rfl⟩
  · rintro ⟨portal, rest, hportal, hname, hutf8, rfl⟩
    rw [bindStatementName, takeCstring_append hportal]
    dsimp only
    rw [takeCstring_append hname]
    dsimp only
    rw [if_pos hutf8]

theorem describeTarget_iff {body name : Bytes} {kind : UInt8} :
    describeTarget body = .ok (kind, name) ↔
      ∃ rest, 0 ∉ name ∧ isUtf8 name = true ∧ body = kind :: (name ++ 0 :: rest) := by
  refine ⟨fun h => ?_, ?_⟩
  · unfold describeTarget at h
    split at h
    case h_1 => cases h
    case h_2 kind' rest =>
      split at h
      case h_1 => cases h
      case h_2 name' back hname =>
        split at h
        case isFalse => cases h
        case isTrue hutf8 =>
          obtain ⟨rfl, rfl⟩ := Prod.mk.inj (Except.ok.inj h)
          obtain ⟨rfl, hnul⟩ := eq_of_takeCstring hname
          exact ⟨back, hnul, hutf8, rfl⟩
  · rintro ⟨rest, hname, hutf8, rfl⟩
    rw [describeTarget, takeCstring_append hname]
    dsimp only
    rw [if_pos hutf8]

theorem decode_iff {body : Bytes} {p : ParseParts} :
    ParseParts.decode body = .ok p ↔
      0 ∉ p.name ∧ 0 ∉ p.sql ∧ isUtf8 p.name = true ∧ isUtf8 p.sql = true ∧
        body = buildParse p.name p.sql p.paramTypes := by
  refine ⟨fun h => ?_, ?_⟩
  · unfold ParseParts.decode at h
    split at h
    case h_1 => cases h
    case h_2 name rest hname =>
      split at h
      case h_1 => cases h
      case h_2 sql types hsql =>
        split_ifs at h with hutf8 hutf8'
        obtain rfl := Except.ok.inj h
        rw [Bool.not_eq_true, Bool.not_eq_false'] at hutf8 hutf8'
        obtain ⟨rfl, hnul⟩ := eq_of_takeCstring hname
        obtain ⟨rfl, hnul'⟩ := eq_of_takeCstring hsql
        refine ⟨hnul, hnul', hutf8, hutf8', ?_⟩
        simp only [buildParse, List.append_assoc, List.cons_append, List.nil_append]
  · rintro ⟨hname, hsql, hutf8, hutf8', rfl⟩
    obtain ⟨rest, hrest, hparts⟩ := takeCstring_buildParse hname hsql p.paramTypes
    rw [ParseParts.decode, hrest]
    dsimp only
    rw [hparts]
    dsimp only
    rw [hutf8, hutf8']
    rfl

theorem replaceCstring_names {portal name : Bytes} (hportal : 0 ∉ portal) (hname : 0 ∉ name) (rest g : Bytes) :
    replaceCstring (portal ++ 0 :: (name ++ 0 :: rest)) 1 g = .ok (portal ++ 0 :: (g ++ 0 :: rest)) := by
  have hfrom : replaceFrom g 1 (portal ++ 0 :: (name ++ 0 :: rest)) = .ok (portal ++ 0 :: (g ++ 0 :: rest)) := by
    rw [replaceFrom, takeCstring_append hportal]
    dsimp only
    rw [replaceFrom, takeCstring_append hname]
    simp only [Except.map, List.append_assoc, List.cons_append, List.nil_append]
  unfold replaceCstring
  split
  · rw [if_neg (by omega), ← hfrom]
  · exact hfrom

theorem replaceCstring_kind {name : Bytes} (hname : 0 ∉ name) (rest g : Bytes) :
    replaceCstring (byte 'S' :: (name ++ 0 :: rest)) 0 g = .ok (byte 'S' :: (g ++ 0 :: rest)) := by
  obtain ⟨c, tail, htail⟩ : ∃ c tail, name ++ 0 :: rest = c :: tail := by
    cases name with
    | nil => exact ⟨0, rest, rfl⟩
    | cons c name => exact ⟨c, name ++ 0 :: rest, rfl⟩
  rw [htail, replaceCstring, if_pos ⟨rfl, .inl rfl⟩, ← htail, replaceFrom, takeCstring_append hname]
  simp only [Except.map, List.append_assoc, List.cons_append, List.nil_append]

/-! ## The client's table -/

/-- What changes a client's table. -/
inductive StatementOp where
  | parse (msg : Message)
  | forget (name : Bytes)
deriving DecidableEq, Repr

/-- The statement a name stands for: of the last `Parse` under it, unless it was closed since. The newest operation is the
first of the list. -/
def latest : List StatementOp → Bytes → Option ParseParts
  | [], _ => none
  | .parse msg :: ops, name =>
      match ParseParts.decode msg.body with
      | .error _ => latest ops name
      | .ok p => if p.name = name ∧ name ≠ [] then some p else latest ops name
  | .forget closed :: ops, name => if name = closed then none else latest ops name

theorem latest_unnamed (ops : List StatementOp) : latest ops [] = none := by
  induction ops with
  | nil => rfl
  | cons op ops ih =>
      cases op with
      | parse msg =>
          rw [latest]
          split
          · exact ih
          · rw [if_neg fun h => h.2 rfl]
            exact ih
      | forget closed =>
          rw [latest]
          split
          · rfl
          · exact ih

/-- The client did send it. -/
theorem sent_of_latest {ops : List StatementOp} {name : Bytes} {p : ParseParts} (h : latest ops name = some p) :
    p.name = name ∧ ∃ msg, .parse msg ∈ ops ∧ ParseParts.decode msg.body = .ok p := by
  induction ops with
  | nil => cases h
  | cons op ops ih =>
      have hrest : latest ops name = some p → p.name = name ∧ ∃ msg, StatementOp.parse msg ∈ op :: ops ∧
          ParseParts.decode msg.body = .ok p := by
        intro h
        obtain ⟨hname, msg, hmem, hp⟩ := ih h
        exact ⟨hname, msg, List.mem_cons_of_mem _ hmem, hp⟩
      cases op with
      | parse msg =>
          rw [latest] at h
          split at h
          · exact hrest h
          · next q hq =>
              split_ifs at h with hname
              · obtain rfl := Option.some.inj h
                exact ⟨hname.1, msg, List.mem_cons_self, hq⟩
              · exact hrest h
      | forget closed =>
          rw [latest] at h
          split_ifs at h
          exact hrest h

section Renaming

variable (sha256 : Bytes → Bytes)

/-- The table after a sequence of operations. A `Parse` that is refused changes nothing. -/
def tableAfter : List StatementOp → ClientStatements
  | [] => .new
  | .parse msg :: ops =>
      match (tableAfter ops).onParse sha256 msg with
      | .error _ => tableAfter ops
      | .ok (_, s) => s
  | .forget name :: ops => (tableAfter ops).forget name

open ClientStatements in
theorem byName_tableAfter (ops : List StatementOp) (name : Bytes) :
    (tableAfter sha256 ops).byName name = (latest ops name).map (statementOf sha256) := by
  induction ops with
  | nil => rfl
  | cons op ops ih =>
      cases op with
      | parse msg =>
          rw [tableAfter, onParse, latest]
          cases ParseParts.decode msg.body with
          | error e => exact ih
          | ok p =>
              dsimp only
              by_cases hunnamed : p.name = []
              · rw [dif_pos hunnamed, if_neg fun h => h.2 (h.1 ▸ hunnamed)]
                exact ih
              · rw [dif_neg hunnamed]
                show Function.update (tableAfter sha256 ops).byName p.name _ name = _
                by_cases hname : name = p.name
                · rw [hname, Function.update_self, if_pos ⟨rfl, hunnamed⟩]
                  rfl
                · rw [Function.update_of_ne hname, if_neg fun h => hname h.1.symm]
                  exact ih
      | forget closed =>
          rw [tableAfter, latest]
          show Function.update (tableAfter sha256 ops).byName closed none name = _
          by_cases hname : name = closed
          · rw [hname, Function.update_self, if_pos rfl]
            rfl
          · rw [Function.update_of_ne hname, if_neg hname]
            exact ih

/-! ## What is forwarded -/

/-- The global name of a statement. -/
def nameOf (p : ParseParts) : Bytes := globalName sha256 p.sql p.paramTypes

/-- The `Parse` of a statement under its global name. -/
def parseOf (p : ParseParts) : Bytes := buildParse (nameOf sha256 p) p.sql p.paramTypes

/-- A renamed message, behind the `Parse` it needs where the backend does not have the statement. -/
def forwarded (b : BackendStatements) (p : ParseParts) (m : Message) : Rewrite :=
  if b.has (nameOf sha256 p) then .replace m else .replayThen (parseOf sha256 p) (nameOf sha256 p) m

variable {sha256}

theorem redirect_tableAfter {ops : List StatementOp} {name : Bytes} {p : ParseParts} (hp : latest ops name = some p)
    {msg : Message} {i : ℕ} {body : Bytes} (hbody : replaceCstring msg.body i (nameOf sha256 p) = .ok body)
    (b : BackendStatements) :
    (tableAfter sha256 ops).redirect msg name i b = .ok (forwarded sha256 b p ⟨msg.tag, body⟩) := by
  have hname : name ≠ [] := by
    rintro rfl
    rw [latest_unnamed] at hp
    cases hp
  have hglobal : (ClientStatements.statementOf sha256 p).globalName = nameOf sha256 p := rfl
  rw [ClientStatements.redirect, if_neg hname, byName_tableAfter, hp, Option.map_some]
  dsimp only
  rw [hglobal, hbody, forwarded]
  dsimp only
  split <;> rfl

theorem redirect_unknown {ops : List StatementOp} {name : Bytes} (hname : name ≠ []) (hp : latest ops name = none)
    (msg : Message) (i : ℕ) (b : BackendStatements) :
    (tableAfter sha256 ops).redirect msg name i b = .error (.unknownStatement name) := by
  rw [ClientStatements.redirect, if_neg hname, byName_tableAfter, hp]
  rfl

variable (sha256)

/-- What becomes of a `Bind`, given what the client's names stand for. -/
structure RenamesBind (s : ClientStatements) (table : Bytes → Option ParseParts) : Prop where
  refused : ∀ msg b e, bindStatementName msg.body = .error e → s.onBind msg b = .error e
  unnamed : ∀ msg b, bindStatementName msg.body = .ok [] → s.onBind msg b = .ok .unchanged
  unknown : ∀ msg b name, bindStatementName msg.body = .ok name → name ≠ [] → table name = none →
    s.onBind msg b = .error (.unknownStatement name)
  known : ∀ msg b name p, bindStatementName msg.body = .ok name → table name = some p →
    ∃ portal rest, msg.body = portal ++ 0 :: (name ++ 0 :: rest) ∧
      s.onBind msg b = .ok (forwarded sha256 b p ⟨msg.tag, portal ++ 0 :: (nameOf sha256 p ++ 0 :: rest)⟩) ∧
      BindRequest.read (portal ++ 0 :: (nameOf sha256 p ++ 0 :: rest)) =
        (BindRequest.read msg.body).map (BindRequest.renamed (nameOf sha256 p))

/-- What becomes of a `Describe` or a `Close`. A `Close` goes without a replay, and says which name it closes. -/
structure RenamesTarget (s : ClientStatements) (table : Bytes → Option ParseParts) : Prop where
  refused : ∀ msg b e, describeTarget msg.body = .error e → s.onDescribeOrClose msg b = .error e
  portal : ∀ msg b kind name, describeTarget msg.body = .ok (kind, name) → kind ≠ byte 'S' →
    s.onDescribeOrClose msg b = .ok .unchanged
  unnamed : ∀ msg b kind, describeTarget msg.body = .ok (kind, []) → s.onDescribeOrClose msg b = .ok .unchanged
  unknown : ∀ msg b name, describeTarget msg.body = .ok (byte 'S', name) → name ≠ [] → table name = none →
    s.onDescribeOrClose msg b = .error (.unknownStatement name)
  known : ∀ msg b name p, describeTarget msg.body = .ok (byte 'S', name) → table name = some p →
    ∃ rest, msg.body = byte 'S' :: (name ++ 0 :: rest) ∧
      s.onDescribeOrClose msg b =
        .ok (if msg.tag = byte 'C' then
          .closeStatement (nameOf sha256 p) name ⟨msg.tag, byte 'S' :: (nameOf sha256 p ++ 0 :: rest)⟩
        else forwarded sha256 b p ⟨msg.tag, byte 'S' :: (nameOf sha256 p ++ 0 :: rest)⟩) ∧
      TargetRequest.read (byte 'S' :: (nameOf sha256 p ++ 0 :: rest)) =
        (TargetRequest.read msg.body).map (TargetRequest.renamed (nameOf sha256 p))

/-- What becomes of a `Parse`. -/
structure RenamesParse (s : ClientStatements) : Prop where
  refused : ∀ msg e, ParseParts.decode msg.body = .error e → s.onParse sha256 msg = .error e
  unnamed : ∀ msg p, ParseParts.decode msg.body = .ok p → p.name = [] → s.onParse sha256 msg = .ok (.unchanged, s)
  named : ∀ msg p, ParseParts.decode msg.body = .ok p → p.name ≠ [] →
    ∃ s', s.onParse sha256 msg = .ok (.parse (nameOf sha256 p) ⟨byte 'P', parseOf sha256 p⟩, s') ∧
      ParseRequest.read (parseOf sha256 p) = (ParseRequest.read msg.body).map (ParseRequest.renamed (nameOf sha256 p))

theorem read_parseOf {body : Bytes} {p : ParseParts} (h : ParseParts.decode body = .ok p) :
    ParseRequest.read (parseOf sha256 p) = (ParseRequest.read body).map (ParseRequest.renamed (nameOf sha256 p)) := by
  obtain ⟨hname, hsql, -, -, rfl⟩ := decode_iff.mp h
  exact ParseRequest.read_renamed hname (zero_notMem_globalName sha256 _ _) hsql _

theorem renamesBind (ops : List StatementOp) : RenamesBind sha256 (tableAfter sha256 ops) (latest ops) where
  refused msg b e h := by rw [ClientStatements.onBind, h]
  unnamed msg b h := by
    rw [ClientStatements.onBind, h]
    exact if_pos rfl
  unknown msg b name h hname hp := by
    rw [ClientStatements.onBind, h]
    exact redirect_unknown hname hp msg 1 b
  known msg b name p h hp := by
    obtain ⟨portal, rest, hportal, hname, -, hbody⟩ := bindStatementName_iff.mp h
    have hg : 0 ∉ nameOf sha256 p := zero_notMem_globalName sha256 _ _
    refine ⟨portal, rest, hbody, ?_, ?_⟩
    · rw [ClientStatements.onBind, h]
      refine redirect_tableAfter hp ?_ b
      rw [hbody, replaceCstring_names hportal hname]
    · rw [hbody]
      exact BindRequest.read_renamed hportal hname hg rest

theorem renamesTarget (ops : List StatementOp) : RenamesTarget sha256 (tableAfter sha256 ops) (latest ops) where
  refused msg b e h := by rw [ClientStatements.onDescribeOrClose, h]
  portal msg b kind name h hkind := by
    rw [ClientStatements.onDescribeOrClose, h]
    exact if_pos hkind
  unnamed msg b kind h := by
    rw [ClientStatements.onDescribeOrClose, h]
    dsimp only
    split
    · rfl
    · rw [ClientStatements.redirect, if_pos rfl]
      dsimp only
      rw [(tableAfter sha256 ops).unnamed]
      split <;> rfl
  unknown msg b name h hname hp := by
    rw [ClientStatements.onDescribeOrClose, h]
    dsimp only
    rw [if_neg (by simp), redirect_unknown hname hp]
  known msg b name p h hp := by
    obtain ⟨rest, hname, -, hbody⟩ := describeTarget_iff.mp h
    have hg : 0 ∉ nameOf sha256 p := zero_notMem_globalName sha256 _ _
    refine ⟨rest, hbody, ?_, ?_⟩
    · have hreplace : replaceCstring msg.body 0 (nameOf sha256 p) = .ok (byte 'S' :: (nameOf sha256 p ++ 0 :: rest)) := by
        rw [hbody, replaceCstring_kind hname]
      rw [ClientStatements.onDescribeOrClose, h]
      dsimp only
      rw [if_neg (by simp), redirect_tableAfter hp hreplace, byName_tableAfter, hp]
      dsimp only [Option.map_some]
      by_cases htag : msg.tag = byte 'C'
      · rw [if_pos htag, if_pos htag, forwarded]
        -- With a replay or without one, a Close is passed on alone.
        cases b.has (nameOf sha256 p) <;> rfl
      · rw [if_neg htag, if_neg htag]
    · rw [hbody]
      exact TargetRequest.read_renamed hname hg _ rest

theorem renamesParse (s : ClientStatements) : RenamesParse sha256 s where
  refused msg e h := by rw [ClientStatements.onParse, h]
  unnamed msg p h hname := by
    rw [ClientStatements.onParse, h]
    exact dif_pos hname
  named msg p h hname := by
    refine ⟨s.remember p.name (ClientStatements.statementOf sha256 p) hname, ?_, read_parseOf sha256 h⟩
    rw [ClientStatements.onParse, h]
    exact dif_neg hname

/-! ## What PostgreSQL accepts -/

theorem bindStatementName_of_read {body : Bytes} {r : BindRequest} (h : BindRequest.read body = some r)
    (hutf8 : isUtf8 r.statement = true) : bindStatementName body = .ok r.statement := by
  unfold BindRequest.read at h
  split at h
  case h_1 => cases h
  case h_2 portal rest hportal =>
    split at h
    case h_1 => cases h
    case h_2 statement rest' hstatement =>
      obtain ⟨t, -, rfl⟩ := Option.map_eq_some_iff.mp h
      obtain ⟨rfl, hnul⟩ := eq_of_takeCstring hportal
      obtain ⟨rfl, hnul'⟩ := eq_of_takeCstring hstatement
      exact bindStatementName_iff.mpr ⟨portal, rest', hnul, hnul', hutf8, rfl⟩

theorem describeTarget_of_read {body : Bytes} {r : TargetRequest} (h : TargetRequest.read body = some r)
    (hutf8 : isUtf8 r.name = true) : describeTarget body = .ok (r.kind, r.name) := by
  unfold TargetRequest.read at h
  split at h
  case h_1 => cases h
  case h_2 kind rest =>
    split at h
    case h_2 => cases h
    case h_1 name hname =>
      split_ifs at h
      obtain rfl := Option.some.inj h
      obtain ⟨rfl, hnul⟩ := eq_of_takeCstring hname
      exact describeTarget_iff.mpr ⟨[], hnul, hutf8, rfl⟩

theorem decode_of_read {body : Bytes} {r : ParseRequest} (h : ParseRequest.read body = some r)
    (hutf8 : isUtf8 r.name = true) (hutf8' : isUtf8 r.query = true) :
    ∃ types, ParseParts.decode body = .ok ⟨r.name, r.query, types⟩ := by
  unfold ParseRequest.read at h
  split at h
  case h_1 => cases h
  case h_2 name rest hname =>
    split at h
    case h_1 => cases h
    case h_2 query rest' hquery =>
      split at h
      case h_2 => cases h
      case h_1 types htypes =>
        obtain rfl := Option.some.inj h
        obtain ⟨rfl, hnul⟩ := eq_of_takeCstring hname
        obtain ⟨rfl, hnul'⟩ := eq_of_takeCstring hquery
        refine ⟨rest', decode_iff.mpr ⟨hnul, hnul', hutf8, hutf8', ?_⟩⟩
        simp only [buildParse, List.append_assoc, List.cons_append, List.nil_append]

/-- Whatever the client parsed and closed: what is forwarded is what it sent under the global name of the statement its name
stands for, and a replayed `Parse` is the one it sent for that statement. Every body PostgreSQL accepts is looked at that
way where its names and its query are UTF-8. -/
theorem renaming_changes_the_name (ops : List StatementOp) :
    RenamesBind sha256 (tableAfter sha256 ops) (latest ops) ∧ RenamesTarget sha256 (tableAfter sha256 ops) (latest ops) ∧
      RenamesParse sha256 (tableAfter sha256 ops) ∧
      (∀ name p, latest ops name = some p → p.name = name ∧ ∃ msg, .parse msg ∈ ops ∧ ParseParts.decode msg.body = .ok p ∧
        ParseRequest.read (parseOf sha256 p) =
          (ParseRequest.read msg.body).map (ParseRequest.renamed (nameOf sha256 p))) ∧
      (∀ body r, BindRequest.read body = some r → isUtf8 r.statement = true → bindStatementName body = .ok r.statement) ∧
      (∀ body r, TargetRequest.read body = some r → isUtf8 r.name = true → describeTarget body = .ok (r.kind, r.name)) ∧
      ∀ body r, ParseRequest.read body = some r → isUtf8 r.name = true → isUtf8 r.query = true →
        ∃ types, ParseParts.decode body = .ok ⟨r.name, r.query, types⟩ := by
  refine ⟨renamesBind sha256 ops, renamesTarget sha256 ops, renamesParse sha256 _, ?_, fun _ _ => bindStatementName_of_read,
    fun _ _ => describeTarget_of_read, fun _ _ => decode_of_read⟩
  intro name p hp
  obtain ⟨hname, msg, hmem, hdecode⟩ := sent_of_latest hp
  exact ⟨hname, msg, hmem, hdecode, read_parseOf sha256 hdecode⟩

/-- A `Bind` that is cut off behind its names is forwarded, and a `Describe` of a portal is not where the name is not
UTF-8. -/
theorem malformed_is_forwarded :
    BindRequest.read [0, byte 's', 0] = none ∧
      (tableAfter (fun _ => []) [.parse ⟨byte 'P', buildParse [byte 's'] [] [0, 0]⟩]).onBind ⟨byte 'B', [0, byte 's', 0]⟩ {} =
        .ok (.replayThen (buildParse (Text.asBytes "havuz_".toList) [] [0, 0]) (Text.asBytes "havuz_".toList)
          ⟨byte 'B', 0 :: (Text.asBytes "havuz_".toList ++ [0])⟩) ∧
      TargetRequest.read [byte 'P', 255, 0] = some ⟨byte 'P', [255]⟩ ∧
      ({} : ClientStatements).onDescribeOrClose ⟨byte 'D', [byte 'P', 255, 0]⟩ {} =
        .error (.malformed "Describe/Close".toList "name is not utf-8".toList) := by
  decide +kernel

end Renaming

end Havuz
