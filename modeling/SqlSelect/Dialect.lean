import SqlSelect.Text.Basic

/-!
String literals of the servers that statements are written for. A dialect has a name and a rule for
quoting; the statement leaves every string value to that rule. Two dialects are built in, both with
single quotes around an escaped text and escaping character by character: the standard one, where
only the quote itself is doubled, and the one with backslash escapes. Others may be given by the
caller.
-/

namespace SqlSelect

/-- How a server wants string values written. -/
structure Dialect where
  name : Text
  quote : Text → Text

namespace Dialect

/-- The text between single quotes, each character replaced by its escaped form. -/
def quoted (escape : Char → Text) (s : Text) : Text :=
  '\'' :: s.flatMap escape ++ ['\'']

/-- The standard escape: a quote is written twice. -/
def doubling : Char → Text
  | '\'' => ['\'', '\'']
  | c => [c]

/-- The escapes with a backslash: for quotes of both kinds, the backslash itself and the control
    characters that would end or garble a line. -/
def backslashing : Char → Text
  | '\x00' => ['\\', '0']
  | '\n' => ['\\', 'n']
  | '\r' => ['\\', 'r']
  | '\\' => ['\\', '\\']
  | '\'' => ['\\', '\'']
  | '"' => ['\\', '"']
  | '\x1a' => ['\\', 'Z']
  | c => [c]

/-- Standard SQL. -/
def ansi : Dialect where
  name := "ansi".toList
  quote := quoted doubling

/-- SQL of servers that read backslash escapes in string literals. -/
def mysql : Dialect where
  name := "mysql".toList
  quote := quoted backslashing

end Dialect

/-- The dialect of statements that are not given one. -/
instance : Inhabited Dialect := ⟨Dialect.ansi⟩

/-- Things that can say which dialect to write, such as an application that knows its server. -/
class DialectProvider (Provider : Type) where
  dialect : Provider → Dialect

/-- A function without arguments hands out its result. -/
instance : DialectProvider (Unit → Dialect) := ⟨fun provider => provider ()⟩

end SqlSelect
