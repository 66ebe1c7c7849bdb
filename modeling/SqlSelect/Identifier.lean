import SqlSelect.Rejection
import SqlSelect.Text.Basic

/-!
Names of columns, tables and aliases. A segment is a letter or underscore followed by letters,
digits and underscores, all of ASCII; an identifier is one segment, or two with a point between
them, the first of which names a table. Since no segment can hold a backtick, a segment is printed
between backticks as it is.

        users.id  ──▶  segment users, segment id  ──▶  both between backticks, a point between them
-/

namespace SqlSelect

/-- Characters that may begin a segment. -/
def isSegmentStart (c : Char) : Bool :=
  c.isAlpha || c = '_'

/-- Characters that may follow in a segment. -/
def isSegmentRest (c : Char) : Bool :=
  c.isAlphanum || c = '_'

/-- A well-formed name without qualifier. -/
structure Segment where
  first : Char
  rest : Text
  first_ok : isSegmentStart first = true
  rest_ok : rest.all isSegmentRest = true
  deriving DecidableEq

/-- A column reference that may be qualified by a table. -/
structure Identifier where
  qualifier : Option Segment := none
  name : Segment
  deriving DecidableEq

namespace Segment

/-- The characters of a segment. -/
def text (s : Segment) : Text :=
  s.first :: s.rest

/-- The segment between backticks. -/
def render (s : Segment) : Text :=
  '\x60' :: s.text ++ ['\x60']

/-- Reads one segment of the name `whole`; the first character that is out of place is reported. -/
def ofText (whole : Text) : Text → Checked Segment
  | [] => .error (.invalidIdentifier (.emptySegment whole))
  | c :: rest =>
    if hc : isSegmentStart c = true then
      match h : rest.find? fun d => !isSegmentRest d with
      | some d => .error (.invalidIdentifier (.badCharacter d whole))
      | none => .ok ⟨c, rest, hc, by simpa using h⟩
    else .error (.invalidIdentifier (.badStart c whole))

/-- Segments with the same characters are equal. -/
theorem text_injective {s t : Segment} (h : s.text = t.text) : s = t := by
  cases s
  cases t
  simpa [text] using h

end Segment

namespace Identifier

/-- Reads a name with at most one point in it. -/
def ofText (s : Text) : Checked Identifier :=
  if s.isEmpty then .error (.invalidIdentifier .empty)
  else
    match s.cut '.' with
    | (first, none) => do
      let name ← Segment.ofText s first
      return { name := name }
    | (first, some second) =>
      if second.contains '.' then .error (.invalidIdentifier (.tooManySegments s))
      else do
        let table ← Segment.ofText s first
        let name ← Segment.ofText s second
        return { qualifier := some table, name := name }

/-- The name as it is written, without quoting. -/
def text (i : Identifier) : Text :=
  match i.qualifier with
  | none => i.name.text
  | some table => table.text ++ '.' :: i.name.text

/-- The identifier in SQL. -/
def render (i : Identifier) : Text :=
  match i.qualifier with
  | none => i.name.render
  | some table => table.render ++ '.' :: i.name.render

end Identifier

/-- Reads a name that must not be qualified: a table, an alias or a field of a join. -/
def Segment.parse (s : Text) : Checked Segment :=
  if s.contains '.' then .error (.invalidIdentifier (.qualifiedName s))
  else if s.isEmpty then .error (.invalidIdentifier .empty)
  else Segment.ofText s s

end SqlSelect
