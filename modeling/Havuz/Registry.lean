import Havuz.Flow
import Havuz.Text

/-!
# Families, profiles and what their statements leave behind

Reference: `havuz-registry/src/lib.rs`, `postgres.rs`, `jdbc.rs` and `session.rs`. The registry is data:
which pooling modes a family offers, how far each product may be driven, and which leading words make a
statement stay with its connection. Forms, labels, ports and capabilities are left out: nothing modelled
reads them.
-/

namespace Havuz

/-- Whether a mode multiplexes clients over fewer backends. -/
def PoolMode.multiplexes : PoolMode → Bool
  | .session => false
  | .transaction => true
  | .statement => true

inductive Maturity where
  | stable
  | beta
  | experimental
  /-- No driver is compiled in. -/
  | planned
deriving DecidableEq, Repr

/-! ## Statement classification by leading words -/

/-- A statement shape whose effect outlives the transaction that ran it. -/
structure PinRule where
  words : Text
  reason : PinReason
deriving DecidableEq, Repr

/-- How a product's statements affect the state a pooled connection carries. -/
structure SessionRules where
  resetQuery : Option Text
  pins : List PinRule
  shareable : List Text
deriving DecidableEq, Repr

/-- `trim_matches` of one word of `leading_words`. -/
def trimPunctuation (word : Text) : Text :=
  let isPunctuation (c : Char) : Bool := c == ';' || c == '(' || c == ')'
  ((word.dropWhile isPunctuation).reverse.dropWhile isPunctuation).reverse

/-- The first few words of a statement, upper-cased and single-spaced. -/
def leadingWords6 (sql : Text) : Text :=
  let trimmed := (Text.trimStart sql).dropWhile (· == '(')
  let words := ((Text.splitWhitespace trimmed).take 6).map trimPunctuation
  Text.join [' '] ((words.filter fun word => !word.isEmpty).map Text.toAsciiUppercase)

/-- Whether `head` begins with `words`, on a word boundary. -/
def startsWithWords (head words : Text) : Bool :=
  match Text.stripPrefix words head with
  | some [] => true
  | some (c :: _) => c == ' '
  | none => false

namespace SessionRules

/-- A product havuz knows nothing about: no reset, no classification. -/
def opaque_ : SessionRules := ⟨none, [], []⟩

/-- Whether this product said enough for a statement to be judged safe. -/
def classifies (r : SessionRules) : Bool := !r.shareable.isEmpty

/-- One rule of either list against the best so far: a longer match wins, a tie goes to the earlier. -/
def better (head words : Text) (verdict : Option PinReason)
    (best : Option (ℕ × Option PinReason)) : Option (ℕ × Option PinReason) :=
  if startsWithWords head words && best.all (fun b => b.1 < words.length) then
    some (words.length, verdict)
  else best

/-- Why this statement makes its connection unshareable, if it does. -/
def classify (r : SessionRules) (sql : Text) : Option PinReason :=
  if !r.classifies then some .unclassified
  else
    let head := leadingWords6 sql
    let best := r.pins.foldl (fun best rule => better head rule.words (some rule.reason) best) none
    let best := r.shareable.foldl (fun best safe => better head safe none best) best
    match best with
    | some (_, verdict) => verdict
    | none => some .unclassified

end SessionRules

/-! ## Profiles and families -/

/-- A concrete product inside a family, with the quirks that are consulted. -/
structure DriverProfile where
  id : Text
  maxPoolMode : PoolMode
  session : SessionRules := .opaque_
deriving DecidableEq, Repr

structure FamilyDescriptor where
  id : Text
  maturity : Maturity
  poolModes : List PoolMode
  /-- Every family declares at least one profile; the first one is the default. -/
  defaultProfile : DriverProfile
  otherProfiles : List DriverProfile := []
  /-- Whether the connection form has a `reset_query` field. -/
  hasResetQuery : Bool := false
deriving DecidableEq, Repr

def FamilyDescriptor.profile (f : FamilyDescriptor) (id : Text) : Option DriverProfile :=
  (f.defaultProfile :: f.otherProfiles).find? fun p => p.id = id

def postgresFamily : FamilyDescriptor where
  id := "postgres".toList
  maturity := .beta
  poolModes := [.session, .transaction, .statement]
  defaultProfile := { id := "postgres".toList, maxPoolMode := .transaction }
  otherProfiles :=
    [{ id := "cockroachdb".toList, maxPoolMode := .transaction },
      { id := "redshift".toList, maxPoolMode := .transaction },
      { id := "yugabytedb".toList, maxPoolMode := .transaction },
      { id := "opengauss".toList, maxPoolMode := .session }]

/-- PostgreSQL reached through pgjdbc. -/
def postgresqlRules : SessionRules where
  resetQuery := some "DISCARD ALL".toList
  pins :=
    [⟨"SET".toList, .sessionParameter⟩, ⟨"RESET".toList, .sessionParameter⟩,
      ⟨"LISTEN".toList, .listen⟩, ⟨"UNLISTEN".toList, .listen⟩,
      ⟨"CREATE TEMP".toList, .tempTable⟩, ⟨"CREATE TEMPORARY".toList, .tempTable⟩,
      ⟨"CREATE LOCAL TEMP".toList, .tempTable⟩, ⟨"CREATE LOCAL TEMPORARY".toList, .tempTable⟩,
      ⟨"CREATE GLOBAL TEMP".toList, .tempTable⟩, ⟨"CREATE GLOBAL TEMPORARY".toList, .tempTable⟩,
      ⟨"PREPARE".toList, .serverSidePrepare⟩, ⟨"DEALLOCATE".toList, .serverSidePrepare⟩,
      ⟨"DECLARE".toList, .holdableCursor⟩, ⟨"COPY".toList, .bulkTransfer⟩]
  shareable :=
    ["SELECT", "INSERT", "UPDATE", "DELETE", "MERGE", "WITH", "VALUES", "TABLE", "SHOW", "EXPLAIN",
      "ANALYZE", "CALL", "SAVEPOINT", "RELEASE", "ROLLBACK", "COMMIT", "BEGIN", "START", "END", "ABORT",
      "SET LOCAL", "SET TRANSACTION", "SET CONSTRAINTS"].map String.toList

/-- Oracle reached through ojdbc. -/
def oracleRules : SessionRules where
  resetQuery := some
    "BEGIN DBMS_SESSION.MODIFY_PACKAGE_STATE(DBMS_SESSION.REINITIALIZE); END;".toList
  pins :=
    [⟨"ALTER SESSION".toList, .sessionParameter⟩, ⟨"SET ROLE".toList, .sessionParameter⟩,
      ⟨"CREATE GLOBAL TEMPORARY".toList, .tempTable⟩, ⟨"CREATE PRIVATE TEMPORARY".toList, .tempTable⟩,
      ⟨"DECLARE".toList, .procedureState⟩]
  shareable :=
    ["SELECT", "INSERT", "UPDATE", "DELETE", "MERGE", "WITH", "SAVEPOINT", "COMMIT",
      "ROLLBACK"].map String.toList

/-- Db2 reached through the IBM Data Server Driver. -/
def db2Rules : SessionRules where
  resetQuery := none
  pins :=
    [⟨"SET CURRENT".toList, .sessionParameter⟩, ⟨"SET SCHEMA".toList, .sessionParameter⟩,
      ⟨"SET PATH".toList, .sessionParameter⟩, ⟨"SET SESSION".toList, .sessionParameter⟩,
      ⟨"DECLARE GLOBAL TEMPORARY".toList, .tempTable⟩, ⟨"BEGIN".toList, .procedureState⟩]
  shareable :=
    ["SELECT", "INSERT", "UPDATE", "DELETE", "MERGE", "WITH", "VALUES", "SAVEPOINT", "COMMIT",
      "ROLLBACK"].map String.toList

def jdbcFamily : FamilyDescriptor where
  id := "jdbc".toList
  maturity := .experimental
  poolModes := [.session, .transaction]
  defaultProfile := { id := "generic".toList, maxPoolMode := .session }
  otherProfiles :=
    [{ id := "postgresql".toList, maxPoolMode := .transaction, session := postgresqlRules },
      { id := "oracle".toList, maxPoolMode := .session, session := oracleRules },
      { id := "db2".toList, maxPoolMode := .session, session := db2Rules }]
  hasResetQuery := true

def mysqlPlanned : FamilyDescriptor where
  id := "mysql".toList
  maturity := .planned
  poolModes := [.session]
  defaultProfile := { id := "mysql".toList, maxPoolMode := .session }

def redisPlanned : FamilyDescriptor where
  id := "redis".toList
  maturity := .planned
  poolModes := [.session]
  defaultProfile := { id := "redis".toList, maxPoolMode := .session }

/-- `FAMILIES`. -/
def families : List FamilyDescriptor := [postgresFamily, jdbcFamily, mysqlPlanned, redisPlanned]

/-- `havuz_registry::family`. -/
def family (id : Text) : Option FamilyDescriptor := families.find? fun f => f.id = id

/-- A rule of either list never loses to a shorter one. -/
example : postgresqlRules.classify "set local work_mem = '1MB'".toList = none ∧
    postgresqlRules.classify "SET  work_mem = '1MB';".toList = some .sessionParameter := by decide

end Havuz
