import Havuz.Text

/-!
# Placeholders for JDBC

Reference: `havuz-jdbc/src/rewrite.rs`. PostgreSQL numbers its placeholders and JDBC has question marks. What
is not a placeholder is copied, with strings, comments and dollar quotes as one piece each. The source works on
offsets into the bytes; all the bytes it looks at are ASCII.
-/

namespace Havuz.Jdbc

/-- A statement rewritten for JDBC, and how many parameters it wants. -/
structure Rewritten where
  sql : Text
  /-- Highest `$n` seen. -/
  highest : ℕ
  /-- Which original `$n` each emitted `?` refers to, in order, counted from zero. -/
  order : List ℕ
deriving DecidableEq, Repr

/-- `copy_quoted` behind the opening delimiter: what is copied, and what is left. -/
def copyQuoted (delimiter : Char) : Text → Text × Text
  | [] => ([], [])
  | [c] => ([c], [])
  | c :: d :: t =>
      if c = delimiter then
        if d = delimiter then
          let rest := copyQuoted delimiter t
          (c :: d :: rest.1, rest.2)
        else ([c], d :: t)
      else
        let rest := copyQuoted delimiter (d :: t)
        (c :: rest.1, rest.2)

/-- `copy_line_comment` behind the dashes. -/
def copyLineComment (t : Text) : Text × Text := (t.takeWhile (· ≠ '\n'), t.dropWhile (· ≠ '\n'))

/-- `copy_block_comment` at a depth of nested comments. -/
def copyBlockComment : ℕ → Text → Text × Text
  | 0, t => ([], t)
  | _ + 1, [] => ([], [])
  | _ + 1, [c] => ([c], [])
  | depth + 1, c :: d :: t =>
      if c = '/' ∧ d = '*' then
        let rest := copyBlockComment (depth + 2) t
        (c :: d :: rest.1, rest.2)
      else if c = '*' ∧ d = '/' then
        let rest := copyBlockComment depth t
        (c :: d :: rest.1, rest.2)
      else
        let rest := copyBlockComment (depth + 1) (d :: t)
        (c :: rest.1, rest.2)

/-- Up to and with the closing tag, or everything if there is none. -/
def throughTag (tag : Text) : Text → Text × Text
  | [] => ([], [])
  | c :: t =>
      if tag.isPrefixOf (c :: t) then (tag, (c :: t).drop tag.length)
      else
        let rest := throughTag tag t
        (c :: rest.1, rest.2)

/-- `dollar_quote` behind the first dollar. -/
def dollarQuote (t : Text) : Option (Text × Text) :=
  let name := t.takeWhile fun c => isAsciiAlphanumeric c || c == '_'
  -- a digit cannot start a tag
  if (name.head?.map isAsciiDigit).getD false then none
  else
    match t.drop name.length with
    | '$' :: body =>
        let rest := throughTag ('$' :: name ++ ['$']) body
        some (name ++ '$' :: rest.1, rest.2)
    | _ => none

/-- `placeholder` behind the dollar: the number and what is left. -/
def placeholder (t : Text) : Option (ℕ × Text) :=
  let digits := t.takeWhile isAsciiDigit
  let number := digits.foldl (fun n c => 10 * n + (c.toNat - '0'.toNat)) 0
  if digits.isEmpty || 65536 ≤ number then none else some (number, t.drop digits.length)

/-- The loop of `to_jdbc`, over what it has written so far. -/
def toJdbcLoop : ℕ → Text → Rewritten → Rewritten
  | 0, _, out => out
  | _, [], out => out
  | fuel + 1, '\'' :: t, out =>
      let run := copyQuoted '\'' t
      toJdbcLoop fuel run.2 { out with sql := out.sql ++ '\'' :: run.1 }
  | fuel + 1, '"' :: t, out =>
      let run := copyQuoted '"' t
      toJdbcLoop fuel run.2 { out with sql := out.sql ++ '"' :: run.1 }
  | fuel + 1, '-' :: '-' :: t, out =>
      let run := copyLineComment t
      toJdbcLoop fuel run.2 { out with sql := out.sql ++ '-' :: '-' :: run.1 }
  | fuel + 1, '/' :: '*' :: t, out =>
      let run := copyBlockComment 1 t
      toJdbcLoop fuel run.2 { out with sql := out.sql ++ '/' :: '*' :: run.1 }
  | fuel + 1, '$' :: t, out =>
      match dollarQuote t with
      | some run => toJdbcLoop fuel run.2 { out with sql := out.sql ++ '$' :: run.1 }
      | none =>
          match placeholder t with
          | some (number, rest) =>
              -- `$0` is not a legal placeholder
              if 1 ≤ number then
                toJdbcLoop fuel rest
                  ⟨out.sql ++ ['?'], max out.highest number, out.order ++ [number - 1]⟩
              else toJdbcLoop fuel rest { out with sql := out.sql ++ ['?'] }
          | none => toJdbcLoop fuel t { out with sql := out.sql ++ ['$'] }
  | fuel + 1, c :: t, out => toJdbcLoop fuel t { out with sql := out.sql ++ [c] }

/-- Rewrite PostgreSQL placeholders into JDBC ones. -/
def toJdbc (sql : Text) : Rewritten := toJdbcLoop sql.length sql ⟨[], 0, []⟩

/-- A dollar inside a string is data. -/
example : toJdbc "select 'costs $1', $2, $1".toList = ⟨"select 'costs $1', ?, ?".toList, 2, [1, 0]⟩ := by decide

end Havuz.Jdbc
