import SqlSelect.Text.Basic

/-!
Names that have to stay distinct. Outputs among themselves and sources among themselves must have
different names; a batch of new ones is checked against the names in use and against itself.
-/

namespace SqlSelect

/-- The first of the new names that is in use or repeats an earlier one of them. -/
def firstTaken (used : List Text) : List Text → Option Text
  | [] => none
  | name :: rest => if name ∈ used then some name else firstTaken (name :: used) rest

end SqlSelect
