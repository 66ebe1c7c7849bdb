import SqlSelect.Text.Basic

/-!
Arguments that name one thing, a list of things, or an ordered mapping from names to values. What
the values of a mapping mean depends on the call: columns under their aliases, tables under theirs,
or sort directions under their keys.
-/

namespace SqlSelect

/-- One name, a list of names, or names with values in a given order. -/
inductive Names (α : Type) where
  | one (name : Text)
  | many (names : List Text)
  | pairs (entries : List (Text × α))

namespace Names

/-- Whether nothing is named. -/
def isEmpty {α : Type} : Names α → Bool
  | one _ => false
  | many names => names.isEmpty
  | pairs entries => entries.isEmpty

end Names

end SqlSelect
