import SqlSelect.Statement.Call

/-!
The methods by which calls are made, listed name by name. The names in log events are put together
from words, such as `or_` before alternatives and `_map` after a request for all entries of a
mapping; each of them comes out as the name of the method that was called.

        or_  ▸  where_  ▸  not_  ▸  starts_with  ▸  _map     ──▶   or_where_not_starts_with_map
-/

namespace SqlSelect

/-- The methods that make a request: the plain one, and the one that adds alternatives. -/
def Request.methods : Request → String × String
  | equal _ _ => ("where_eq", "or_where_eq")
  | compare _ _ _ => ("where_op", "or_where_op")
  | equalEach _ => ("where_map", "or_where_map")
  | raw _ _ _ => ("where_raw", "or_where_raw")
  | null false _ => ("where_null", "or_where_null")
  | null true _ => ("where_not_null", "or_where_not_null")
  | pattern .around false _ _ => ("where_contains", "or_where_contains")
  | pattern .around true _ _ => ("where_not_contains", "or_where_not_contains")
  | pattern .after false _ _ => ("where_starts_with", "or_where_starts_with")
  | pattern .after true _ _ => ("where_not_starts_with", "or_where_not_starts_with")
  | pattern .before false _ _ => ("where_ends_with", "or_where_ends_with")
  | pattern .before true _ _ => ("where_not_ends_with", "or_where_not_ends_with")
  | patternEach .around false _ => ("where_contains_map", "or_where_contains_map")
  | patternEach .around true _ => ("where_not_contains_map", "or_where_not_contains_map")
  | patternEach .after false _ => ("where_starts_with_map", "or_where_starts_with_map")
  | patternEach .after true _ => ("where_not_starts_with_map", "or_where_not_starts_with_map")
  | patternEach .before false _ => ("where_ends_with_map", "or_where_ends_with_map")
  | patternEach .before true _ => ("where_not_ends_with_map", "or_where_not_ends_with_map")
  | inList false _ _ => ("where_in", "or_where_in")
  | inList true _ _ => ("where_not_in", "or_where_not_in")
  | inListEach false _ => ("where_in_map", "or_where_in_map")
  | inListEach true _ => ("where_not_in_map", "or_where_not_in_map")
  | length _ _ => ("where_length", "or_where_length")
  | compareLength _ _ _ => ("where_length_op", "or_where_length_op")
  | lengthEach _ => ("where_length_map", "or_where_length_map")

/-- The method that makes a call on conditions. -/
def ConditionCall.method : ConditionCall → String
  | add .and request => request.methods.1
  | add .or request => request.methods.2
  | group .and _ => "where_group"
  | group .or _ => "or_where_group"

/-- The method that joins a target as callers write it. -/
def JoinTarget.method : JoinKind → JoinTarget → String
  | .left, table _ => "left_join"
  | .left, aliased _ _ => "left_join_as"
  | .left, raw _ _ => "raw_left_join"
  | .inner, table _ => "inner_join"
  | .inner, aliased _ _ => "inner_join_as"
  | .inner, raw _ _ => "raw_inner_join"
  | .right, table _ => "right_join"
  | .right, aliased _ _ => "right_join_as"
  | .right, raw _ _ => "raw_right_join"

/-- The method that makes a call. -/
def Call.method : Call → String
  | select _ => "select"
  | addSelect _ => "add_select"
  | addRawSelect _ _ => "add_raw_select"
  | fromTables _ => "from"
  | fromAliased _ _ => "from_as"
  | fromRaw _ _ => "raw_from"
  | join _ _ _ _ => "join"
  | joinTarget kind target _ _ => target.method kind
  | condition call => call.method
  | orderBy _ _ => "order_by"
  | orderByRaw _ _ => "raw_order_by"
  | limit _ _ => "limit"
  | setDialect _ => "set_connection"
  | configure _ => "with_config"

/-! ### Names in events -/

theorem Request.name_eq_method (request : Request) :
    request.name = request.methods.1.toList := by
  -- negations and wildcards are part of a name, so each of them has a row of its own in the list
  cases request with
  | null negated | inList negated | inListEach negated => cases negated <;> (rw [methods]; rfl)
  | pattern wildcards negated | patternEach wildcards negated =>
    cases wildcards <;> cases negated <;> (rw [methods]; rfl)
  | _ => rfl

/-- The method that adds alternatives is named after the plain one. -/
theorem Request.methods_or (request : Request) :
    request.methods.2 = "or_" ++ request.methods.1 := by
  cases request with
  | null negated | inList negated | inListEach negated => cases negated <;> simp [methods]
  | pattern wildcards negated | patternEach wildcards negated =>
    cases wildcards <;> cases negated <;> simp [methods]
  | _ => simp [methods]

theorem ConditionCall.name_eq_method (call : ConditionCall) : call.name = call.method.toList := by
  cases call with
  | add c request =>
    rw [name, request.name_eq_method]
    cases c with
    | and => rfl
    | or =>
      rw [method, request.methods_or, String.toList_append]
      rfl
  | group c body => cases c <;> (rw [method]; rfl)

theorem JoinTarget.callName_eq_method (kind : JoinKind) (target : JoinTarget) :
    target.callName kind = (target.method kind).toList := by
  cases kind <;> cases target <;> (rw [method]; rfl)

/-- The name of a call in log events is that of the method that makes it. -/
theorem Call.name_eq_method (call : Call) : call.name = call.method.toList := by
  cases call with
  | joinTarget kind target => exact target.callName_eq_method kind
  | condition call => exact call.name_eq_method
  | _ => rfl

end SqlSelect
