import SqlSelect.Number.Numeral

/-!
Why a call is rejected. A rejection names its cause and carries what the caller wrote; its kind, a
short stable name, and its message for people are computed from the cause. Callers may also state a
cause in words of their own, which become part of the message as they are.
-/

namespace SqlSelect

/-- What is wrong with the text of a column, table or alias name. -/
inductive IdentifierFault where
  | empty
  | tooManySegments (whole : Text)
  | emptySegment (whole : Text)
  | badStart (character : Char) (whole : Text)
  | badCharacter (character : Char) (whole : Text)
  | qualifiedName (whole : Text)
  | rawSelectWithoutAlias
  | stated (wording : Text)
  deriving DecidableEq

/-- Which name is taken already. -/
inductive NameClash where
  | output (name : Text)
  | source (name : Text)
  | stated (wording : Text)
  deriving DecidableEq

/-- Which part of a row limit is negative. -/
inductive LimitFault where
  | negativeCount (count : Int)
  | negativeOffset (offset : Int)
  | stated (wording : Text)
  deriving DecidableEq

/-- The arguments that may be lists or mappings and must not be empty. -/
inductive Listing where
  | columns | columnMapping | tables | tableMapping | sortColumns | sortMapping | joinFields
  | conditionMapping
  deriving DecidableEq

/-- The places where verbatim SQL may stand and must not be blank. -/
inductive RawPlace where
  | select | table | order | condition
  deriving DecidableEq

/-- What is wrong with an argument of the right type. -/
inductive ArgumentFault where
  | emptyListing (listing : Listing)
  | blankRaw (place : RawPlace)
  | mappingForNullCheck
  | emptyInList (column : Text)
  | longInList (column : Text) (size limit : Nat)
  | lengthNotInteger (found : Text)
  | notFinite (value : Text)
  | stated (wording : Text)
  deriving DecidableEq

/-- The cause of a rejected call. -/
inductive Rejection where
  | invalidIdentifier (fault : IdentifierFault)
  | duplicateIdentifier (clash : NameClash)
  | orphanedJoin (target localTable : Text)
  | invalidOperator (token : Text)
  | invalidDirection (token : Text)
  | invalidLimit (fault : LimitFault)
  | invalidArgument (fault : ArgumentFault)
  | typeError (expected found : Text)
  deriving DecidableEq

/-- A value, or the cause for which there is none. -/
abbrev Checked (α : Type) := Except Rejection α

/-- The eight kinds of rejections. -/
inductive Rejection.Kind where
  | invalidIdentifier | duplicateIdentifier | orphanedJoin | invalidOperator | invalidDirection
  | invalidLimit | invalidArgument | typeError
  deriving DecidableEq

/-- All kinds, in the order in which they are declared. -/
def Rejection.Kind.all : List Rejection.Kind :=
  [.invalidIdentifier, .duplicateIdentifier, .orphanedJoin, .invalidOperator, .invalidDirection,
   .invalidLimit, .invalidArgument, .typeError]

/-- The name of a kind in log events. -/
def Rejection.Kind.label : Rejection.Kind → Text
  | .invalidIdentifier => "invalid_identifier".toList
  | .duplicateIdentifier => "duplicate_identifier".toList
  | .orphanedJoin => "orphaned_join".toList
  | .invalidOperator => "invalid_operator".toList
  | .invalidDirection => "invalid_direction".toList
  | .invalidLimit => "invalid_limit".toList
  | .invalidArgument => "invalid_argument".toList
  | .typeError => "type_error".toList

/-- The kind of a rejection. -/
def Rejection.kind : Rejection → Rejection.Kind
  | .invalidIdentifier _ => .invalidIdentifier
  | .duplicateIdentifier _ => .duplicateIdentifier
  | .orphanedJoin _ _ => .orphanedJoin
  | .invalidOperator _ => .invalidOperator
  | .invalidDirection _ => .invalidDirection
  | .invalidLimit _ => .invalidLimit
  | .invalidArgument _ => .invalidArgument
  | .typeError _ _ => .typeError

/-! ### Messages -/

/-- The wording of an identifier fault. -/
def IdentifierFault.message : IdentifierFault → Text
  | .empty => "Identifier cannot be empty".toList
  | .tooManySegments whole =>
    "Identifier ".toList ++ whole.cited ++ " has more than two segments".toList
  | .emptySegment whole => "Empty identifier segment in ".toList ++ whole.cited
  | .badStart c whole =>
    "Invalid identifier start character ".toList ++ Text.cited [c] ++ " in ".toList ++ whole.cited
  | .badCharacter c whole =>
    "Invalid character ".toList ++ Text.cited [c] ++ " in identifier ".toList ++ whole.cited
  | .qualifiedName whole =>
    "Identifier ".toList ++ whole.cited ++ " must not be table-qualified".toList
  | .rawSelectWithoutAlias => "Raw select requires an alias".toList
  | .stated wording => wording

/-- The wording of a name clash. -/
def NameClash.message : NameClash → Text
  | .output name => "select ".toList ++ name.cited
  | .source name => "table ".toList ++ name.cited
  | .stated wording => wording

/-- The wording of a limit fault. -/
def LimitFault.message : LimitFault → Text
  | .negativeCount count => "count must not be negative, got ".toList ++ Numeral.ofInt count
  | .negativeOffset offset => "offset must not be negative, got ".toList ++ Numeral.ofInt offset
  | .stated wording => wording

/-- How messages call a listing. -/
def Listing.name : Listing → Text
  | .columns => "Column list".toList
  | .columnMapping => "Column mapping".toList
  | .tables => "Table list".toList
  | .tableMapping => "Table mapping".toList
  | .sortColumns => "Order column list".toList
  | .sortMapping => "Order mapping".toList
  | .joinFields => "Join field mapping".toList
  | .conditionMapping => "Mapping".toList

/-- How messages call verbatim SQL in its place. -/
def RawPlace.name : RawPlace → Text
  | .select => "Raw select expression".toList
  | .table => "Raw table expression".toList
  | .order => "Raw order expression".toList
  | .condition => "Raw expression".toList

/-- The wording of an argument fault. -/
def ArgumentFault.message : ArgumentFault → Text
  | .emptyListing listing => listing.name ++ " cannot be empty".toList
  | .blankRaw place => place.name ++ " cannot be empty".toList
  | .mappingForNullCheck =>
    "Null checks take a column or a list of columns, not a mapping".toList
  | .emptyInList column => "IN list for ".toList ++ column.cited ++ " cannot be empty".toList
  | .longInList column size limit =>
    "IN list for ".toList ++ column.cited ++ " has ".toList ++ Numeral.ofNat size ++
      " values, limit is ".toList ++ Numeral.ofNat limit
  | .lengthNotInteger found => "Length must be an integer, got ".toList ++ found
  | .notFinite value => "Float value ".toList ++ value ++ " has no SQL literal form".toList
  | .stated wording => wording

/-- The message of a rejection. -/
def Rejection.message : Rejection → Text
  | .invalidIdentifier fault => "Invalid identifier: ".toList ++ fault.message
  | .duplicateIdentifier clash => "Duplicate identifier: ".toList ++ clash.message
  | .orphanedJoin target localTable =>
    "Orphaned join: local table ".toList ++ localTable.cited ++
      " is not registered (joining ".toList ++ target.cited ++ ")".toList
  | .invalidOperator token => "Invalid operator: ".toList ++ token.cited
  | .invalidDirection token => "Invalid order direction: ".toList ++ token.cited
  | .invalidLimit fault => "Invalid limit: ".toList ++ fault.message
  | .invalidArgument fault => "Invalid argument: ".toList ++ fault.message
  | .typeError expected found =>
    "Type error: expected ".toList ++ expected ++ ", found ".toList ++ found

end SqlSelect
