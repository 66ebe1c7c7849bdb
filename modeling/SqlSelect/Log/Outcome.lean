import SqlSelect.Log.Event

/-!
What a call comes to: the state after it, whether it was accepted or why it was not, and the events
it reported. Calls are made one after the other; a rejected call ends the sequence unless it is
guarded, in which case the sequence goes on from the state that the call left.
-/

namespace SqlSelect

/-- The result of a call, or of a sequence of calls, on a state. -/
structure Outcome (State : Type) where
  state : State
  verdict : Checked Unit
  events : List Event

namespace Outcome

variable {State : Type}

/-- Nothing was done. -/
def unchanged (s : State) : Outcome State :=
  ⟨s, .ok (), []⟩

/-- Goes on with the rest of a sequence after a call, unless the call was rejected without being
    guarded. Events stay in order. -/
def andThen (guarded : Bool) (first : Outcome State) (rest : State → Outcome State) :
    Outcome State :=
  match first.verdict, guarded with
  | .error _, false => first
  | _, _ => { rest first.state with events := first.events ++ (rest first.state).events }

/-- The same outcome for a state that has this one as a part. -/
def map {State' : Type} (embed : State → State') (o : Outcome State) : Outcome State' :=
  ⟨embed o.state, o.verdict, o.events⟩

end Outcome

end SqlSelect
