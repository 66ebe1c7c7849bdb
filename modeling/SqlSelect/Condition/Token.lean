import SqlSelect.Rejection
import SqlSelect.Text.Blank

/-!
The tokens that conditions are built with: comparison operators and the two combinators. Callers
give them as text. Blanks around a token never matter, those between `NOT` and `LIKE` only have to
be there, and the case of letters is ignored; a rejected token is reported as it was given.
-/

namespace SqlSelect

/-- How a value is compared. The two spellings of inequality stay apart, so that each is written as
    it was given. -/
inductive Operator where
  | equal | unequal | different | greater | less | atLeast | atMost | like | notLike
  deriving DecidableEq

namespace Operator

/-- The operator in SQL. -/
def text : Operator → Text
  | equal => ['=']
  | unequal => ['!', '=']
  | different => ['<', '>']
  | greater => ['>']
  | less => ['<']
  | atLeast => ['>', '=']
  | atMost => ['<', '=']
  | like => "LIKE".toList
  | notLike => "NOT LIKE".toList

/-- Operators made of letters, which need blanks around them everywhere. -/
def isKeyword : Operator → Bool
  | like => true
  | notLike => true
  | _ => false

/-- The operators written with signs. -/
def symbols : List Operator :=
  [equal, unequal, different, greater, less, atLeast, atMost]

/-- Reads an operator. -/
def ofText (s : Text) : Checked Operator :=
  match symbols.find? fun operator => operator.text == Text.trim s with
  | some operator => .ok operator
  | none =>
    match Text.words (Text.trim s) with
    | [word] => if Text.sameWord word "LIKE".toList then .ok like else .error (.invalidOperator s)
    | [first, second] =>
      if Text.sameWord first "NOT".toList && Text.sameWord second "LIKE".toList then .ok notLike
      else .error (.invalidOperator s)
    | _ => .error (.invalidOperator s)

end Operator

/-- How neighbouring conditions are combined. -/
inductive Combinator where
  | and | or
  deriving DecidableEq

namespace Combinator

/-- The combinator in SQL. -/
def text : Combinator → Text
  | .and => "AND".toList
  | .or => "OR".toList

/-- The combinator as it stands between two conditions. -/
def separator (c : Combinator) : Text :=
  ' ' :: c.text ++ [' ']

/-- Reads a combinator. -/
def ofText (s : Text) : Checked Combinator :=
  if Text.sameWord (Text.trim s) "AND".toList then .ok .and
  else if Text.sameWord (Text.trim s) "OR".toList then .ok .or
  else .error (.invalidOperator s)

end Combinator

end SqlSelect
