import Havuz.Sql.Scan
import Havuz.Flow
import Havuz.Lib.SortedMap

/-!
# Session parameters

Reference: `havuz-pg/src/params.rs`. A `SET` is a value with a name: it is classified, staged while the
server has not answered, and replayed as a delta on whatever backend the client lands on next.
-/

namespace Havuz.Sql

open Havuz.Lib

/-- What a `SET`- or `RESET`-family statement means for parameter tracking. -/
inductive SetAction where
  /-- Remember `statement` under `name`. Replaying it reproduces the effect. -/
  | track (name statement : Text)
  /-- Forget `name`. If a backend still has it, it must be told to reset. -/
  | reset (name : Text)
  /-- Forget everything. -/
  | resetAll
  /-- Cannot be reproduced by replay, so the session has to pin. -/
  | pin (reason : PinReason)
  /-- Not a session parameter statement. -/
  | none
deriving DecidableEq, Repr

/-! ## Words and names -/

/-- Whether `c` ends a word: whitespace, `=` or `,`. -/
def endsWord (c : Char) : Bool := isWhitespace c || c == '=' || c == ','

/-- Split off the leading word, returning it and the rest of the input. -/
def takeWord (input : Text) : Text × Text :=
  let trimmed := Text.trimStart input
  (trimmed.takeWhile (! endsWord ·), trimmed.dropWhile (! endsWord ·))

/-- Does this text contain a `$1`-style placeholder, given a stripped text? -/
def hasDollarDigit : Text → Bool
  | '$' :: d :: rest => isAsciiDigit d || hasDollarDigit (d :: rest)
  | _ :: rest => hasDollarDigit rest
  | [] => false

/-- Does this text contain a `$1`-style parameter placeholder? -/
def hasPlaceholder (value : Text) : Bool := hasDollarDigit (stripLiterals value)

def isIdentifier : Text → Bool
  | [] => false
  | first :: rest =>
      (isAsciiAlphabetic first || first == '_') &&
        rest.all fun c => isAsciiAlphanumeric c || c == '_' || c == '$'

/-- Is this a GUC name we are willing to write into a generated statement: one identifier, or two
separated by a dot? -/
def isParameterName (name : Text) : Bool :=
  match name.splitOn '.' with
  | [first] => isIdentifier first
  | [first, second] => isIdentifier first && isIdentifier second
  | _ => false

/-! ## Classification -/

def track (statement name : Text) : SetAction :=
  .track (Text.toAsciiLowercase name) (Text.trim statement)

/-- The value part of `SET name {= | TO} value`, `none` when neither introduces it. -/
def setValue (afterFirst : Text) : Option Text :=
  let afterFirst := Text.trimStart afterFirst
  match afterFirst with
  | '=' :: value => some (Text.trim value)
  | _ =>
      let (word, value) := takeWord afterFirst
      if Text.eqIgnoreAsciiCase word "TO".toList then some (Text.trim value) else none

/-- `SET name {= | TO} value`, once the special spellings are out of the way. -/
def classifySetParameter (statement first afterFirst : Text) : SetAction :=
  if !isParameterName first then .pin .sessionParameter
  else
    match setValue afterFirst with
    | none => .pin .sessionParameter
    | some value =>
        if value.isEmpty then .pin .sessionParameter
        else if hasPlaceholder value then .pin .sessionParameter
        else if Text.eqIgnoreAsciiCase value "DEFAULT".toList then .reset (Text.toAsciiLowercase first)
        else track statement (Text.toAsciiLowercase first)

/-- What follows the keyword `SET`. The recursion skips `SESSION`, which is noise in front of a
parameter; `fuel` bounds the number of words and the length of the text is enough. -/
def classifySetBody : Nat → Text → Text → SetAction
  | 0, _, _ => .pin .sessionParameter
  | fuel + 1, statement, rest =>
      let (first, afterFirst) := takeWord rest
      let upper := Text.toAsciiUppercase first
      if upper = "LOCAL".toList ∨ upper = "TRANSACTION".toList then .none
      else if upper = "ROLE".toList then .pin .sessionParameter
      else if upper = "CONSTRAINTS".toList then .pin .sessionParameter
      else if upper = "SESSION".toList then
        let second := Text.toAsciiUppercase (takeWord afterFirst).1
        if second = "AUTHORIZATION".toList then .pin .sessionParameter
        else if second = "CHARACTERISTICS".toList then .pin .sessionParameter
        else classifySetBody fuel statement afterFirst
      else if upper = "TIME".toList ∧
          Text.eqIgnoreAsciiCase (takeWord afterFirst).1 "ZONE".toList then
        track statement "timezone".toList
      else if upper = "NAMES".toList then track statement "client_encoding".toList
      else if upper = "SCHEMA".toList then track statement "search_path".toList
      else if upper = "XML".toList ∧
          Text.eqIgnoreAsciiCase (takeWord afterFirst).1 "OPTION".toList then
        track statement "xmloption".toList
      else classifySetParameter statement first afterFirst

def classifyResetBody (rest : Text) : SetAction :=
  let (first, afterFirst) := takeWord rest
  let upper := Text.toAsciiUppercase first
  if upper = "ALL".toList then .resetAll
  else if upper = "ROLE".toList then .reset "role".toList
  else if upper = "SESSION".toList then .reset "session_authorization".toList
  else if upper = "TIME".toList then
    if Text.eqIgnoreAsciiCase (takeWord afterFirst).1 "ZONE".toList then .reset "timezone".toList
    else .pin .sessionParameter
  else if isParameterName first then .reset (Text.toAsciiLowercase first)
  else .pin .sessionParameter

/-- The text `classify_set` looks at: leading noise, trailing whitespace and one trailing semicolon
are gone. -/
def normalizeStatement (statement : Text) : Text :=
  Text.trimEnd (Text.stripSuffixChar ';' (Text.trimEnd (stripLeadingNoise statement)))

/-- Classify a single statement. -/
def classifySet (statement : Text) : SetAction :=
  let normalized := normalizeStatement statement
  if normalized.isEmpty then .none
  else
    let (keyword, rest) := takeWord normalized
    let upper := Text.toAsciiUppercase keyword
    if upper = "SET".toList then classifySetBody (rest.length + 1) normalized rest
    else if upper = "RESET".toList then classifyResetBody rest
    else .none

/-- Does this statement discard work done earlier in the same batch? -/
def undoesTheBatch (statement : Text) : Bool :=
  let first := (takeWord (stripLeadingNoise statement)).1
  Text.eqIgnoreAsciiCase first "ROLLBACK".toList || Text.eqIgnoreAsciiCase first "ABORT".toList

/-- Every action carried by one client message. A batch that also rolls back is refused. -/
def actionsForSql (sql : Text) : List SetAction :=
  let statements := splitStatements sql
  let actions := (statements.map classifySet).filter (· ≠ .none)
  if actions.isEmpty then actions
  else if statements.any undoesTheBatch then [.pin .sessionParameter]
  else actions

/-! ## Read-only sessions -/

/-- The GUC that makes PostgreSQL refuse writes. -/
def readOnlyGuc : Text := "default_transaction_read_only".toList

/-- `READ` directly followed by `WRITE` in a list of words. -/
def hasReadWrite : List Text → Bool
  | a :: b :: rest =>
      (a = "READ".toList && b = "WRITE".toList) || hasReadWrite (b :: rest)
  | _ => false

/-- Does this statement contain a `READ WRITE` clause? -/
def mentionsReadWrite (statement : Text) : Bool :=
  hasReadWrite (Text.splitWhitespace (Text.toAsciiUppercase (stripLiterals statement)))

def statementDefeatsReadOnly (statement : Text) : Bool :=
  let normalized := stripLeadingNoise statement
  let (keyword, rest) := takeWord normalized
  let upper := Text.toAsciiUppercase keyword
  if upper = "SET".toList ∨ upper = "RESET".toList then
    match classifySet normalized with
    | .track name _ => name = readOnlyGuc
    | .reset name => name = readOnlyGuc
    | .resetAll => true
    | _ => mentionsReadWrite normalized
  else if upper = "BEGIN".toList then mentionsReadWrite normalized
  else if upper = "START".toList then
    Text.eqIgnoreAsciiCase (takeWord rest).1 "TRANSACTION".toList && mentionsReadWrite normalized
  else false

/-- Would this statement let a read-only session write again? -/
def defeatsReadOnly (sql : Text) : Bool := (splitStatements sql).any statementDefeatsReadOnly

/-! ## What a client wants -/

/-- Parameter name to the statement that produces it (`BTreeMap<String, String>`). -/
abbrev ParamMap := SortedMap Text Text

/-- The session parameters one client wants, wherever it runs. -/
structure ClientParams where
  /-- Parameter name to the statement that produces it. -/
  desired : ParamMap := .empty
  /-- Changes observed in the current exchange, not yet believed. -/
  pending : List SetAction := []
deriving DecidableEq

/-- The effect of one believed action on a parameter map. -/
def applyAction (m : ParamMap) : SetAction → ParamMap
  | .track name statement => m.insert name statement
  | .reset name => m.erase name
  | .resetAll => .empty
  | .pin _ => m
  | .none => m

namespace ClientParams

/-- Startup-packet keys that are not session parameters. -/
def notAParameter : List Text :=
  ["user".toList, "database".toList, "replication".toList, "options".toList,
    "client_encoding".toList]

/-- The statement `seed` stores: the value as a literal with its quotes doubled. -/
def seedStatement (name value : Text) : Text :=
  "SET ".toList ++ name ++ " = '".toList ++
    value.flatMap (fun c => if c = '\'' then ['\'', '\''] else [c]) ++ ['\'']

def seed (p : ClientParams) (key value : Text) : ClientParams :=
  if isParameterName key then
    let name := Text.toAsciiLowercase key
    { p with desired := p.desired.insert name (seedStatement name value) }
  else p

/-- `split_options`: the words of the `options` field, with backslash escapes. -/
def splitOptionsAux : Text → Text → List Text
  | cur, [] => if cur.isEmpty then [] else [cur.reverse]
  | cur, '\\' :: escaped :: rest => splitOptionsAux (escaped :: cur) rest
  | cur, ['\\'] => if cur.isEmpty then [] else [cur.reverse]
  | cur, c :: rest =>
      if isWhitespace c then
        if cur.isEmpty then splitOptionsAux [] rest else cur.reverse :: splitOptionsAux [] rest
      else splitOptionsAux (c :: cur) rest

def splitOptions (options : Text) : List Text := splitOptionsAux [] options

/-- One `name=value` assignment, both sides trimmed. -/
def assignment (t : Text) : List (Text × Text) :=
  match Text.splitOnce '=' t with
  | some (key, value) => [(Text.trim key, Text.trim value)]
  | none => []

def parseOptionTokens : List Text → List (Text × Text)
  | [] => []
  | token :: rest =>
      if token = "-c".toList then
        match rest with
        | next :: rest => assignment next ++ parseOptionTokens rest
        | [] => []
      else
        match Text.stripPrefix "-c".toList token with
        | some t => assignment t ++ parseOptionTokens rest
        | none =>
            match Text.stripPrefix "--".toList token with
            | some t => assignment t ++ parseOptionTokens rest
            | none => parseOptionTokens rest

/-- Unpack the startup packet's `options` field into GUC assignments. -/
def parseOptions (options : Text) : List (Text × Text) := parseOptionTokens (splitOptions options)

/-- One key of the startup packet. -/
def seedStartup (p : ClientParams) (key value : Text) : ClientParams :=
  if Text.eqIgnoreAsciiCase key "options".toList then
    (parseOptions value).foldl (fun p kv => p.seed kv.1 kv.2) p
  else if notAParameter.any (Text.eqIgnoreAsciiCase key) then p
  else p.seed key value

/-- Seed from the client's startup packet. -/
def fromStartup (params : List (Text × Text)) : ClientParams :=
  params.foldl (fun p kv => p.seedStartup kv.1 kv.2) {}

/-- Make PostgreSQL refuse writes for this session. -/
def enforceReadOnly (p : ClientParams) : ClientParams :=
  { p with desired :=
      p.desired.insert readOnlyGuc ("SET ".toList ++ readOnlyGuc ++ " = 'on'".toList) }

/-- Record a change that the server has not confirmed yet. -/
def stage (p : ClientParams) (action : SetAction) : ClientParams :=
  if action = .none then p else { p with pending := p.pending ++ [action] }

def hasPending (p : ClientParams) : Bool := !p.pending.isEmpty

/-- Believe the staged changes. -/
def commitPending (p : ClientParams) : ClientParams :=
  { desired := p.pending.foldl applyAction p.desired, pending := [] }

/-- Forget the staged changes. -/
def discardPending (p : ClientParams) : ClientParams := { p with pending := [] }

/-- Statements that bring a backend holding `applied` in line with this client: resets first, then
the client's own statements, each in key order. -/
def delta (p : ClientParams) (applied : ParamMap) : List Text :=
  (applied.keys.filter fun name => (p.desired.get name).isNone).map ("RESET ".toList ++ ·) ++
    (p.desired.entries.filter fun e => applied.get e.1 ≠ some e.2).map Prod.snd

end ClientParams

end Havuz.Sql
