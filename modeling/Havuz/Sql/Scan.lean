import Havuz.Lib.Run
import Havuz.Text

/-!
# The SQL scanner

Reference: `havuz-pg/src/classify.rs` (`split_statements`, `strip_literals`, `dollar_tag_len`,
`strip_leading_noise`, `leading_words`).

`split_statements` and `strip_literals` walk the text with the same loop: quotes with backslash and
doubled-quote escapes, `$tag$` quotes, line comments and nested block comments. The walk is stated
once, as a scanner that labels every character; what the source looks ahead for is kept in the state
instead. The two functions differ only in what they do with the labels.
-/

namespace Havuz.Sql

open Havuz.Lib

/-- What the walk makes of a character. -/
inductive Label where
  /-- Outside every literal and comment. -/
  | code
  /-- The first character of a literal or comment. -/
  | opener
  /-- The rest of a literal or comment. -/
  | inside
deriving DecidableEq, Repr

/-- Where the walk is. -/
inductive ScanState where
  | base
  /-- One `-`, which opens a line comment if another one follows. -/
  | dash
  /-- One `/`, which opens a block comment if `*` follows. -/
  | slash
  /-- `$` and the tag characters read so far, last one first. -/
  | dollar (acc : Text)
  | quote (q : Char)
  /-- After a backslash inside a quote: the next character is taken whatever it is. -/
  | quoteEscape (q : Char)
  /-- After a quote character inside a quote: a second one is an escape, anything else is outside. -/
  | quoteEnd (q : Char)
  /-- Inside `$tag$`: the tag and what was read since, both last character first. -/
  | body (tag seen : Text)
  | line
  | block (depth : Nat)
  | blockSlash (depth : Nat)
  | blockStar (depth : Nat)
deriving DecidableEq, Repr

/-- The labelled text a walk produces. -/
abbrev Labelled := List (Label × Char)

/-- A character met outside every literal and comment. -/
def scanBase (c : Char) : ScanState × Labelled :=
  if c = '\'' ∨ c = '"' then (.quote c, [(.opener, c)])
  else if c = '$' then (.dollar [], [])
  else if c = '-' then (.dash, [])
  else if c = '/' then (.slash, [])
  else (.base, [(.code, c)])

/-- Write `held` as code in front of what `c` gives outside every literal and comment. -/
def scanAfter (held : Text) (c : Char) : ScanState × Labelled :=
  ((scanBase c).1, held.map (Label.code, ·) ++ (scanBase c).2)

/-- One character of the walk. -/
def scanStep : ScanState → Char → ScanState × Labelled
  | .base, c => scanBase c
  | .dash, c =>
      if c = '-' then (.line, [(.opener, '-'), (.inside, '-')]) else scanAfter ['-'] c
  | .slash, c =>
      if c = '*' then (.block 1, [(.opener, '/'), (.inside, '*')]) else scanAfter ['/'] c
  | .dollar acc, c =>
      if isAsciiAlphanumeric c ∨ c = '_' then (.dollar (c :: acc), [])
      else if c = '$' then
        (.body ('$' :: acc ++ ['$']) [], (.opener, '$') :: (acc.reverse ++ ['$']).map (Label.inside, ·))
      else scanAfter ('$' :: acc.reverse) c
  | .quote q, c =>
      if c = '\\' then (.quoteEscape q, [(.inside, c)])
      else if c = q then (.quoteEnd q, [(.inside, c)])
      else (.quote q, [(.inside, c)])
  | .quoteEscape q, c => (.quote q, [(.inside, c)])
  | .quoteEnd q, c => if c = q then (.quote q, [(.inside, c)]) else scanBase c
  | .body tag seen, c =>
      if tag.isPrefixOf (c :: seen) then (.base, [(.inside, c)])
      else (.body tag (c :: seen), [(.inside, c)])
  | .line, c => if c = '\n' then (.base, [(.code, c)]) else (.line, [(.inside, c)])
  | .block d, c =>
      if c = '/' then (.blockSlash d, [(.inside, c)])
      else if c = '*' then (.blockStar d, [(.inside, c)])
      else (.block d, [(.inside, c)])
  | .blockSlash d, c =>
      if c = '*' then (.block (d + 1), [(.inside, c)])
      else if c = '/' then (.blockSlash d, [(.inside, c)])
      else (.block d, [(.inside, c)])
  | .blockStar d, c =>
      if c = '/' then (if d ≤ 1 then .base else .block (d - 1), [(.inside, c)])
      else if c = '*' then (.blockStar d, [(.inside, c)])
      else (.block d, [(.inside, c)])

/-- What the walk was still holding back at the end of the text is code. -/
def scanFinish : ScanState → Labelled
  | .dash => [(.code, '-')]
  | .slash => [(.code, '/')]
  | .dollar acc => ('$' :: acc.reverse).map (Label.code, ·)
  | _ => []

/-- The walk shared by `split_statements` and `strip_literals`. -/
def walk : Scanner ScanState Char (Label × Char) := ⟨.base, scanStep, scanFinish⟩

/-- Cut a labelled text at its code semicolons. The last fragment is kept only if it is not empty. -/
def cutAtSemicolons : Text → Labelled → List Text
  | cur, [] => if cur.isEmpty then [] else [cur.reverse]
  | cur, (l, c) :: rest =>
      if l = .code ∧ c = ';' then cur.reverse :: cutAtSemicolons [] rest
      else cutAtSemicolons (c :: cur) rest

/-- Split a simple-query payload into statements. -/
def splitStatements (sql : Text) : List Text := cutAtSemicolons [] (walk.scan sql)

/-- What `strip_literals` writes for a labelled character: code is copied byte by byte, a literal or
comment leaves one blank where it opened. -/
def keepCode : Label × Char → Text
  | (.code, c) => Text.asLatin1 [c]
  | (.opener, _) => [' ']
  | (.inside, _) => []

/-- Replace the contents of quoted strings with nothing. -/
def stripLiterals (sql : Text) : Text := (walk.scan sql).flatMap keepCode

/-- The loop of `strip_leading_noise`; every turn drops at least the two characters that open a
comment. Block comments are taken not to nest here. -/
def stripLeadingNoiseLoop : Nat → Text → Text
  | 0, rest => rest
  | fuel + 1, rest =>
      match Text.stripPrefix ['-', '-'] rest with
      | some after =>
          stripLeadingNoiseLoop fuel (Text.trimStart ((Text.afterFirst ['\n'] after).getD []))
      | none =>
          match Text.stripPrefix ['/', '*'] rest with
          | some after =>
              match Text.afterFirst ['*', '/'] after with
              | some rest => stripLeadingNoiseLoop fuel (Text.trimStart rest)
              | none => []
          | none => rest

/-- Drop leading whitespace and comments so `/* app */ SET x = 1` is still seen as a `SET`. -/
def stripLeadingNoise (sql : Text) : Text :=
  stripLeadingNoiseLoop sql.length (Text.trimStart sql)

/-- Uppercase the first `n` whitespace-separated words. -/
def leadingWords (sql : Text) (n : Nat) : Text :=
  Text.toAsciiUppercase (Text.join [' '] ((Text.splitWhitespace sql).take n))

example : splitStatements "SELECT 'a;b'; /* ; */ SET x = $t$;$t$; -- ;".toList =
    ["SELECT 'a;b'".toList, " /* ; */ SET x = $t$;$t$".toList, " -- ;".toList] := by decide

example : stripLiterals "a'b'c--d".toList = "a c ".toList := by decide

end Havuz.Sql
