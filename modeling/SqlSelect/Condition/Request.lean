import SqlSelect.Condition.Predicate
import SqlSelect.Names
import SqlSelect.Text.Blank

/-!
Requests for conditions as callers write them, with columns and operators still text, and the
checks that turn a request into the conditions it stands for. A request for several conditions is
checked as a whole: it yields all of them or the first fault.
-/

namespace SqlSelect

/-- Where the wildcards of a pattern stand around its text. -/
inductive Wildcards where
  | around | after | before
  deriving DecidableEq

/-- A request for one or more conditions. -/
inductive Request where
  | equal (column : Text) (value : Literal)
  | compare (column operator : Text) (value : Literal)
  | equalEach (pairs : List (Text × Literal))
  | raw (expression operator : Text) (value : Literal)
  | null (negated : Bool) (columns : Names Unit)
  | pattern (wildcards : Wildcards) (negated : Bool) (column : Text) (value : Literal)
  | patternEach (wildcards : Wildcards) (negated : Bool) (pairs : List (Text × Literal))
  | inList (negated : Bool) (column : Text) (values : List Literal)
  | inListEach (negated : Bool) (pairs : List (Text × List Literal))
  | length (column : Text) (value : Literal)
  | compareLength (column operator : Text) (value : Literal)
  | lengthEach (pairs : List (Text × Literal))

namespace Wildcards

/-- The pattern with its wildcards. Those in the text keep their meaning. -/
def wrap (text : Text) : Wildcards → Text
  | around => '%' :: text ++ ['%']
  | after => text ++ ['%']
  | before => '%' :: text

/-- What the methods for such patterns are named after. -/
def name : Wildcards → Text
  | around => "contains".toList
  | after => "starts_with".toList
  | before => "ends_with".toList

end Wildcards

namespace Predicate

/-- A comparison of a column with a value: the column is checked first, then the operator, then the
    value. -/
def comparing (column operator : Text) (value : Literal) : Checked Predicate := do
  let name ← Identifier.ofText column
  let op ← Operator.ofText operator
  value.validate
  return compare (.column name) op value

/-- A comparison of a verbatim expression, which must not be blank, with a value. -/
def comparingRaw (expression operator : Text) (value : Literal) : Checked Predicate :=
  if Text.allBlank expression then .error (.invalidArgument (.blankRaw .condition))
  else do
    let op ← Operator.ofText operator
    value.validate
    return compare (.raw expression) op value

/-- The text of a value in a pattern: texts stand as they are, finite numbers as in SQL. -/
def patternText (value : Literal) : Checked Text :=
  match value with
  | .text s => .ok s
  | .int n => .ok (Numeral.ofInt n.toInt)
  | .uint n => .ok (Numeral.ofNat n.toNat)
  | .float x =>
    if x.isFinite then .ok x.text else .error (.typeError "string".toList value.typeName)
  | _ => .error (.typeError "string".toList value.typeName)

/-- A comparison of a column with a pattern. -/
def matching (wildcards : Wildcards) (negated : Bool) (column : Text) (value : Literal) :
    Checked Predicate := do
  let name ← Identifier.ofText column
  let text ← patternText value
  return compare (.column name) (if negated then .notLike else .like) (.text (wildcards.wrap text))

/-- A test of a column for `NULL`. -/
def testingNull (negated : Bool) (column : Text) : Checked Predicate := do
  let name ← Identifier.ofText column
  return null name negated

/-- Whether a list of values has a length that a membership condition may have. -/
def checkSize (cap : Option Nat) (column : Text) (size : Nat) : Checked Unit :=
  if size = 0 then .error (.invalidArgument (.emptyInList column))
  else
    match cap with
    | none => .ok ()
    | some limit =>
      if limit < size then .error (.invalidArgument (.longInList column size limit)) else .ok ()

/-- Membership of a column in a list of values, which must not be empty nor longer than the cap. -/
def listing (cap : Option Nat) (negated : Bool) (column : Text) (values : List Literal) :
    Checked Predicate := do
  let name ← Identifier.ofText column
  checkSize cap name.text values.length
  values.forM Literal.validate
  return inList name values negated

/-- A comparison of the length of a column with a whole number. -/
def measuring (column operator : Text) (value : Literal) : Checked Predicate := do
  let name ← Identifier.ofText column
  let op ← Operator.ofText operator
  if value.whole?.isSome then return compare (.length name) op value
  else .error (.invalidArgument (.lengthNotInteger value.typeName))

end Predicate

namespace Request

/-- The conditions of all entries of a mapping, which must have some. -/
def each {α : Type} (check : Text → α → Checked Predicate) (pairs : List (Text × α)) :
    Checked (List Predicate) := do
  let predicates ← pairs.mapM fun (column, value) => check column value
  if predicates.isEmpty then .error (.invalidArgument (.emptyListing .conditionMapping))
  else return predicates

/-- The columns of a test for `NULL`: one or a list of them, but no mapping. -/
def nullColumns : Names Unit → Checked (List Text)
  | .one column => .ok [column]
  | .many columns =>
    if columns.isEmpty then .error (.invalidArgument (.emptyListing .columns)) else .ok columns
  | .pairs _ => .error (.invalidArgument .mappingForNullCheck)

/-- The conditions that a request stands for under a cap on lists of values. -/
def check (cap : Option Nat) : Request → Checked (List Predicate)
  | equal column value => return [← Predicate.comparing column ['='] value]
  | compare column operator value => return [← Predicate.comparing column operator value]
  | equalEach pairs => each (fun column => Predicate.comparing column ['=']) pairs
  | raw expression operator value => return [← Predicate.comparingRaw expression operator value]
  | null negated columns => do (← nullColumns columns).mapM (Predicate.testingNull negated)
  | pattern wildcards negated column value =>
    return [← Predicate.matching wildcards negated column value]
  | patternEach wildcards negated pairs => each (Predicate.matching wildcards negated) pairs
  | inList negated column values => return [← Predicate.listing cap negated column values]
  | inListEach negated pairs => each (Predicate.listing cap negated) pairs
  | length column value => return [← Predicate.measuring column ['='] value]
  | compareLength column operator value => return [← Predicate.measuring column operator value]
  | lengthEach pairs => each (fun column => Predicate.measuring column ['=']) pairs

/-- The name of a request in log events, before a combinator is added to it. -/
def name : Request → Text
  | equal _ _ => "where_eq".toList
  | compare _ _ _ => "where_op".toList
  | equalEach _ => "where_map".toList
  | raw _ _ _ => "where_raw".toList
  | null negated _ => "where_".toList ++ maybeNot negated "null"
  | pattern wildcards negated _ _ => "where_".toList ++ maybeNot negated "" ++ wildcards.name
  | patternEach wildcards negated _ =>
    "where_".toList ++ maybeNot negated "" ++ wildcards.name ++ "_map".toList
  | inList negated _ _ => "where_".toList ++ maybeNot negated "in"
  | inListEach negated _ => "where_".toList ++ maybeNot negated "in_map"
  | length _ _ => "where_length".toList
  | compareLength _ _ _ => "where_length_op".toList
  | lengthEach _ => "where_length_map".toList
where
  /-- The word, after `not_` for negated conditions. -/
  maybeNot (negated : Bool) (word : String) : Text :=
    (if negated then "not_".toList else []) ++ word.toList

end Request

end SqlSelect
