import SqlSelect.Condition.Request
import SqlSelect.Condition.Tree
import SqlSelect.Log.Outcome

/-!
Calls that add conditions, made one after the other in a context. A context holds the tree that
grows, the cap on lists of values, and whether it is nested. A call adds the conditions of a
request, or a group: the group runs a script of calls in a nested context of its own, whose tree is
added to the outer one if the script ends well. Nested contexts report nothing, so a rejected call
is reported once, by the outermost call it is part of.

Calls of a script may be guarded; the rejection of a guarded call is dropped and the script goes
on, while any other rejection ends the script and becomes that of the group. A script that gives up
is not a call: it ends there, and no guard of its own can stop that.
-/

namespace SqlSelect

/-- The calls that a group runs, up to a good end or to giving up with a reason of its own. -/
inductive Script where
  | done
  | giveUp (reason : Rejection)
  | add (guarded : Bool) (combinator : Combinator) (request : Request) (rest : Script)
  | group (guarded : Bool) (combinator : Combinator) (body rest : Script)

/-- A call that adds conditions. -/
inductive ConditionCall where
  | add (combinator : Combinator) (request : Request)
  | group (combinator : Combinator) (body : Script)

/-- What conditions are added to. -/
structure Context where
  tree : Tree := {}
  cap : Option Nat := none
  nested : Bool

namespace Context

/-- A context that stands by itself: it has no conditions yet, accepts lists of any length and
    reports nothing. -/
def standalone : Context where
  nested := true

/-- The context in which a group of this one runs its script. -/
def inner (ctx : Context) : Context where
  cap := ctx.cap
  nested := true

/-- The name of a call in log events, after `or_` for alternatives. -/
def callName (combinator : Combinator) (name : Text) : Text :=
  match combinator with
  | .and => name
  | .or => "or_".toList ++ name

/-- What a rejected call reports: one event, or none from a nested context. -/
def report (ctx : Context) (call : Text) (reason : Rejection) : List Event :=
  if ctx.nested then [] else [.rejected call reason]

/-- Adds the conditions of a request. -/
def add (ctx : Context) (combinator : Combinator) (request : Request) : Outcome Context :=
  match request.check ctx.cap with
  | .ok predicates =>
    .unchanged { ctx with tree := ctx.tree.attachAll combinator predicates }
  | .error reason =>
    ⟨ctx, .error reason, ctx.report (callName combinator request.name) reason⟩

/-- Adds what a script came to in the inner context as a group. -/
def close (ctx : Context) (combinator : Combinator) (body : Outcome Context) : Outcome Context :=
  match body.verdict with
  | .ok () =>
    ⟨{ ctx with tree := ctx.tree.attachGroup combinator body.state.tree }, .ok (), body.events⟩
  | .error reason =>
    ⟨ctx, .error reason,
      body.events ++ ctx.report (callName combinator "where_group".toList) reason⟩

end Context

/-- Makes the calls of a script in a context. -/
def Script.run : Script → Context → Outcome Context
  | done, ctx => .unchanged ctx
  | giveUp reason, ctx => ⟨ctx, .error reason, []⟩
  | add guarded combinator request rest, ctx =>
    (ctx.add combinator request).andThen guarded rest.run
  | group guarded combinator body rest, ctx =>
    (ctx.close combinator (body.run ctx.inner)).andThen guarded rest.run

/-- The name of a call in log events. -/
def ConditionCall.name : ConditionCall → Text
  | add combinator request => Context.callName combinator request.name
  | group combinator _ => Context.callName combinator "where_group".toList

/-- Makes a single call in a context. -/
def ConditionCall.run : ConditionCall → Context → Outcome Context
  | add combinator request, ctx => ctx.add combinator request
  | group combinator body, ctx => ctx.close combinator (body.run ctx.inner)

end SqlSelect
