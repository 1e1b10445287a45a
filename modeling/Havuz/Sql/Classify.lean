import Havuz.Protocol
import Havuz.Sql.Params

/-!
# What a client message costs

Reference: `havuz-pg/src/classify.rs`. Leading keywords decide whether a message ends an exchange,
pins the session, or may be served by a replica.
-/

namespace Havuz.Sql

/-- What the pooler should do about a client message. -/
inductive ClientIntent where
  /-- Client is leaving. Never forwarded to the backend. -/
  | terminate
  /-- A request that will be answered with `ReadyForQuery`. -/
  | syncPoint
  /-- Part of an extended-protocol exchange that is not yet complete. -/
  | pipelined
  /-- Mutates session state that outlives the transaction. -/
  | pins (reason : PinReason)
  /-- Everything else. -/
  | ordinary
deriving DecidableEq, Repr

/-! ## Pinning statements -/

/-- The offsets of `pg_advisory_` in a lowercased text, looking for a session-level use. -/
def mentionsAdvisory : Text → Bool
  | [] => false
  | c :: rest =>
      ("pg_advisory_".toList.isPrefixOf (c :: rest) &&
        !"pg_advisory_xact_".toList.isPrefixOf (c :: rest) &&
        !"pg_advisory_unlock".toList.isPrefixOf (c :: rest)) || mentionsAdvisory rest

/-- `pg_advisory_lock` holds until unlocked or the session ends; `pg_advisory_xact_lock` is released
at commit and is therefore safe. -/
def mentionsSessionAdvisoryLock (sql : Text) : Bool := mentionsAdvisory (Text.toAsciiLowercase sql)

def isTemp (w : Option Text) : Bool :=
  w = some "TEMP".toList || w = some "TEMPORARY".toList

def statementPinReason (statement : Text) : Option PinReason :=
  let normalized := stripLeadingNoise statement
  if normalized.isEmpty then none
  else
    let words := Text.splitWhitespace (leadingWords normalized 4)
    let first := words.head?
    let second := words[1]?
    let third := words[2]?
    if first = some "SET".toList ∨ first = some "RESET".toList then
      match classifySet normalized with
      | .pin reason => some reason
      | _ => none
    else if first = some "LISTEN".toList ∨ first = some "UNLISTEN".toList then some .listen
    else if first = some "CREATE".toList then
      if isTemp second ∨
          ((second = some "GLOBAL".toList ∨ second = some "LOCAL".toList) ∧ isTemp third) then
        some .tempTable
      else none
    else if first = some "PREPARE".toList then some .serverSidePrepare
    else if first = some "DEALLOCATE".toList then some .serverSidePrepare
    else if first = some "DECLARE".toList then
      if Text.contains (Text.toAsciiUppercase normalized) "WITH HOLD".toList then
        some .holdableCursor
      else none
    else if first = some "COPY".toList then some .bulkTransfer
    else if first = some "START".toList ∧ second = some "REPLICATION".toList then some .replication
    else if mentionsSessionAdvisoryLock normalized then some .advisoryLock
    else none

/-- Does this SQL leave something behind on the connection? -/
def sqlPinReason (sql : Text) : Option PinReason :=
  (splitStatements sql).findSome? statementPinReason

/-! ## Message texts -/

/-- The body up to its first NUL. -/
def textBody (body : Bytes) : Text := fromUtf8Lossy (body.takeWhile (· ≠ 0))

/-- The field after the first NUL, up to the next one: the second piece of `splitn(3, NUL)`. -/
def secondField (body : Bytes) : Option Bytes :=
  if body.contains 0 then some (((body.dropWhile (· ≠ 0)).drop 1).takeWhile (· ≠ 0)) else none

/-- Extract the query text from a `Parse` message body. -/
def parseMessageSql (body : Bytes) : Option Text := (secondField body).map fromUtf8Lossy

/-- Classify a message from the client. -/
def classify (msg : Message) : ClientIntent :=
  if msg.tag = byte 'X' then .terminate
  else if msg.tag = byte 'Q' then
    match sqlPinReason (textBody msg.body) with
    | some reason => .pins reason
    | none => .syncPoint
  else if msg.tag = byte 'P' then
    match (parseMessageSql msg.body).bind sqlPinReason with
    | some reason => .pins reason
    | none => .pipelined
  else if msg.tag = byte 'S' then .syncPoint
  else if msg.tag = byte 'H' then .pipelined
  else if msg.tag = byte 'B' ∨ msg.tag = byte 'D' ∨ msg.tag = byte 'E' ∨ msg.tag = byte 'C' then
    .pipelined
  else if msg.tag = byte 'd' ∨ msg.tag = byte 'c' ∨ msg.tag = byte 'f' then .pins .bulkTransfer
  else if msg.tag = byte 'F' then .syncPoint
  else .ordinary

/-! ## Read/write routing -/

/-- Where a statement is allowed to run. -/
inductive RouteIntent where
  | read
  | write
deriving DecidableEq, Repr

/-- Does this statement open a transaction block? -/
def opensTransaction (sql : Text) : Bool :=
  let words := Text.splitWhitespace (Text.toAsciiUppercase (stripLiterals (stripLeadingNoise sql)))
  words.head? = some "BEGIN".toList ||
    (words.head? = some "START".toList && words[1]? = some "TRANSACTION".toList)

/-- Does this statement open an explicitly read-only transaction? -/
def startsReadOnlyTransaction (sql : Text) : Bool :=
  opensTransaction sql &&
    Text.contains (Text.toAsciiUppercase (stripLiterals (stripLeadingNoise sql))) "READ ONLY".toList

/-- Leading keywords of statements that may be reads. -/
def readCandidates : List Text :=
  ["SELECT".toList, "WITH".toList, "SHOW".toList, "EXPLAIN".toList, "TABLE".toList,
    "VALUES".toList, "FETCH".toList]

/-- Row locks, and writes wearing a `SELECT` costume. -/
def writeMarkers : List Text :=
  ["FOR UPDATE".toList, "FOR NO KEY UPDATE".toList, "FOR SHARE".toList, "FOR KEY SHARE".toList,
    "NEXTVAL(".toList, "SETVAL(".toList, "PG_ADVISORY".toList, "SELECT INTO".toList,
    " INTO ".toList]

/-- What makes a `WITH` statement a write with a `SELECT` on the outside. -/
def cteMarkers : List Text :=
  ["INSERT ".toList, "UPDATE ".toList, "DELETE ".toList, "MERGE ".toList]

def statementRouteIntent (statement : Text) (sessionReadOnly : Bool) : RouteIntent :=
  let normalized := stripLeadingNoise statement
  if (Text.trim normalized).isEmpty then .read
  else if opensTransaction normalized then
    if sessionReadOnly || startsReadOnlyTransaction normalized then .read else .write
  else
    let first := leadingWords normalized 1
    if first ∉ readCandidates then .write
    else
      let scannable := Text.toAsciiUppercase (stripLiterals normalized)
      if writeMarkers.any (Text.contains scannable) then .write
      else if first = "WITH".toList ∧ cteMarkers.any (Text.contains scannable) then .write
      else if first = "EXPLAIN".toList ∧ Text.contains scannable "ANALYZE".toList then .write
      else .read

/-- Decide whether a statement may be served by a replica. -/
def routeIntent (sql : Text) (sessionReadOnly : Bool) : RouteIntent :=
  let statements :=
    (splitStatements sql).filter fun s => !(Text.trim (stripLeadingNoise s)).isEmpty
  if statements.isEmpty then .write
  else if statements.any fun s => statementRouteIntent s sessionReadOnly = .write then .write
  else .read

end Havuz.Sql
