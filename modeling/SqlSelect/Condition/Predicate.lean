import SqlSelect.Condition.Token
import SqlSelect.Identifier
import SqlSelect.Literal.Basic

/-!
Single conditions: a comparison of a column, a verbatim expression or the length of a column with a
value, a test for `NULL`, membership in a list of values, and, for joins, a comparison of two
columns.
-/

namespace SqlSelect

/-- The left-hand side of a comparison with a value. -/
inductive Subject where
  | column (name : Identifier)
  | raw (expression : Text)
  | length (name : Identifier)
  deriving DecidableEq

/-- A single condition. -/
inductive Predicate where
  | compare (subject : Subject) (operator : Operator) (value : Literal)
  | null (column : Identifier) (negated : Bool)
  | inList (column : Identifier) (values : List Literal) (negated : Bool)
  | columns (left : Identifier) (operator : Operator) (right : Identifier)
  deriving DecidableEq

/-- The left-hand side in SQL; verbatim expressions stay as they are. -/
def Subject.render : Subject → Text
  | column name => name.render
  | raw expression => expression
  | length name => "LENGTH(".toList ++ name.render ++ [')']

/-- The condition in SQL. Blanks surround the operator, except for signs between two columns. -/
def Predicate.render (d : Dialect) : Predicate → Text
  | compare subject operator value =>
    subject.render ++ ' ' :: operator.text ++ ' ' :: value.render d
  | null column negated =>
    column.render ++ (if negated then " IS NOT NULL" else " IS NULL").toList
  | inList column values negated =>
    column.render ++ (if negated then " NOT IN (" else " IN (").toList ++
      List.intercalate [','] (values.map (Literal.render d)) ++ [')']
  | columns left operator right =>
    if operator.isKeyword then left.render ++ ' ' :: operator.text ++ ' ' :: right.render
    else left.render ++ operator.text ++ right.render

end SqlSelect
