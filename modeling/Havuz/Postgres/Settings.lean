import Mathlib
import Havuz.Postgres.Statement

/-!
# What a `SET` or a `RESET` changes

`VariableSetStmt` and `VariableResetStmt` of the grammar of PostgreSQL, over the tokens of one statement that are not
separators: which parameter the statement changes, and how. Of the values it is only said that they do not go on with a
name, and of the reserved words only those are known that a reading here depends on, so the grammar reads more than
PostgreSQL takes.
-/

namespace Havuz.Postgres

/-- Reserved words: none of them names a parameter. -/
def reserved : List Text := ["ALL".toList, "DEFAULT".toList, "TO".toList]

/-- `ColId`: the name, in lower case however it is quoted. -/
def Token.colId (t : Token) : Option Text :=
  if t.keyword ∈ reserved then none else t.name.map Text.toAsciiLowercase

/-- `var_name`. -/
inductive VarName : List Token → Text → Prop
  | colId {t n} (h : t.colId = some n) : VarName [t] n
  | dot {t n d ts m} (h : t.colId = some n) (hd : d.isSymbol '.' = true) (hts : VarName ts m) :
      VarName (t :: d :: ts) (n ++ '.' :: m)

/-- What follows does not go on with a name, nor with an assignment to it. -/
def opensValue : List Token → Bool
  | [] => false
  | t :: _ => !t.isSymbol '.' && !t.isSymbol '=' && t.keyword ≠ "TO".toList

/-- `var_list`: none of its tokens goes on with a name or with an assignment. -/
def isValue (value : List Token) : Bool :=
  !value.isEmpty && value.all fun t => !t.isSymbol '.' && !t.isSymbol '=' && t.keyword ≠ "TO".toList

/-- The value is the keyword `DEFAULT`. -/
def isDefault : List Token → Bool
  | [t] => t.keyword = "DEFAULT".toList
  | _ => false

/-- What a statement changes. -/
inductive Change where
  /-- A parameter, which gets a value or the one it has by default. -/
  | set (name : Text) (toDefault : Bool)
  /-- A parameter goes back to what it has by default. -/
  | reset (name : Text)
  | resetAll
  /-- The role or the user of the session, or several parameters at once. -/
  | session
deriving DecidableEq, Repr

/-- What does not give the name of the parameter. -/
inductive Special : List Token → Change → Prop
  | timeZone {t z value} (ht : t.keyword = "TIME".toList) (hz : z.keyword = "ZONE".toList)
      (hvalue : opensValue value = true) : Special (t :: z :: value) (.set "timezone".toList (isDefault value))
  | names {t value} (ht : t.keyword = "NAMES".toList) (hvalue : value = [] ∨ opensValue value = true) :
      Special (t :: value) (.set "client_encoding".toList (isDefault value))
  | schema {t value} (ht : t.keyword = "SCHEMA".toList) (hvalue : opensValue value = true) :
      Special (t :: value) (.set "search_path".toList (isDefault value))
  | xmlOption {x o value} (hx : x.keyword = "XML".toList) (ho : o.keyword = "OPTION".toList)
      (hvalue : opensValue value = true) : Special (x :: o :: value) (.set "xmloption".toList (isDefault value))
  | role {t value} (ht : t.keyword = "ROLE".toList) (hvalue : opensValue value = true) : Special (t :: value) .session
  | authorization {s a value} (hs : s.keyword = "SESSION".toList) (ha : a.keyword = "AUTHORIZATION".toList)
      (hvalue : opensValue value = true) : Special (s :: a :: value) .session
  | characteristics {s c a t modes} (hs : s.keyword = "SESSION".toList) (hc : c.keyword = "CHARACTERISTICS".toList)
      (ha : a.keyword = "AS".toList) (ht : t.keyword = "TRANSACTION".toList) : Special (s :: c :: a :: t :: modes) .session

/-- What stands behind `SET` and `SET SESSION`: the tokens of the name it gives, if it gives one, and what it
changes. -/
inductive SetRest : List Token → List Token → Change → Prop
  | generic {name n op value} (hname : VarName name n) (hop : op.isSymbol '=' = true ∨ op.keyword = "TO".toList)
      (hvalue : isValue value = true) (hdefault : ∀ t ∈ value, t.keyword = "DEFAULT".toList → isDefault value = true) :
      SetRest (name ++ op :: value) name (.set n (isDefault value))
  | special {rest change} (h : Special rest change) : SetRest rest [] change

/-- A statement: the tokens of the name it gives, if it gives one, and what it changes. -/
inductive Changes : List Token → List Token → Change → Prop
  | set {k rest name change} (hk : k.keyword = "SET".toList) (h : SetRest rest name change) :
      Changes (k :: rest) name change
  | setSession {k s rest name change} (hk : k.keyword = "SET".toList) (hs : s.keyword = "SESSION".toList)
      (h : SetRest rest name change) : Changes (k :: s :: rest) name change
  | reset {k name n} (hk : k.keyword = "RESET".toList) (h : VarName name n) : Changes (k :: name) name (.reset n)
  | resetAll {k a} (hk : k.keyword = "RESET".toList) (ha : a.keyword = "ALL".toList) : Changes [k, a] [] .resetAll
  | resetTimeZone {k t z} (hk : k.keyword = "RESET".toList) (ht : t.keyword = "TIME".toList)
      (hz : z.keyword = "ZONE".toList) : Changes [k, t, z] [] (.reset "timezone".toList)
  | resetSession {k s a} (hk : k.keyword = "RESET".toList) (hs : s.keyword = "SESSION".toList)
      (ha : a.keyword = "AUTHORIZATION".toList) : Changes [k, s, a] [] (.reset "session_authorization".toList)

end Havuz.Postgres
