import SqlSelect.Proofs.Effects

/-!
Conditions written down without a tree. The text of some steps can be put together from left to
right, with no more in hand than the text so far and the combinator that was put last: a step under
another combinator first sends the whole text into parentheses. Trees are built by one rule, which
opens a group where the combinator changes, and printed by another, which has parentheses around
all groups but an open one at the root; together they come to exactly this text.

        a  ──▶  a AND b  ──▶  (a AND b) OR c  ──▶  (a AND b) OR c OR (d)
-/

namespace SqlSelect

/-- A text of conditions as it grows: what is written, and the combinator put last, if one was. -/
structure Written where
  text : Text
  last : Option Combinator

/-- Writes more under a combinator. Under another one than the last, what is written so far goes
    into parentheses. -/
def Written.add (w : Written) (c : Combinator) (more : Text) : Written where
  text :=
    if w.last = none ∨ w.last = some c then w.text ++ c.separator ++ more
    else '(' :: w.text ++ [')'] ++ c.separator ++ more
  last := some c

theorem Written.add_same {w : Written} {c : Combinator} {more : Text}
    (h : w.last = none ∨ w.last = some c) :
    w.add c more = ⟨w.text ++ c.separator ++ more, some c⟩ := by
  rw [add, if_pos h]

theorem Written.add_other {w : Written} {c : Combinator} {more : Text}
    (h : ¬(w.last = none ∨ w.last = some c)) :
    w.add c more = ⟨'(' :: w.text ++ [')'] ++ c.separator ++ more, some c⟩ := by
  rw [add, if_neg h]

namespace Step

variable (d : Dialect)

mutual

/-- The text of a step: the condition itself, or the steps of the group in parentheses. -/
def text : Step → Text
  | condition _ p => p.render d
  | group _ first rest => '(' :: (writeAll ⟨first.text, none⟩ rest).text ++ [')']

/-- Writes some steps one after the other. -/
def writeAll (w : Written) : List Step → Written
  | [] => w
  | step :: steps => writeAll (w.add step.combinator step.text) steps

end

/-- The text of some steps, which starts with that of the first. -/
def textAll : List Step → Text
  | [] => []
  | first :: rest => (writeAll d ⟨first.text d, none⟩ rest).text

end Step

/-! ### Trees -/

/-- An item after others is printed after a separator. -/
theorem intercalate_concat {α : Type} (separator last : List α) {parts : List (List α)}
    (h : parts ≠ []) :
    List.intercalate separator (parts ++ [last]) =
      List.intercalate separator parts ++ separator ++ last := by
  induction parts with
  | nil => exact absurd rfl h
  | cons part parts ih =>
    cases parts with
    | nil => simp
    | cons next parts =>
      have hmore := ih (List.cons_ne_nil next parts)
      rw [List.cons_append] at hmore
      simp only [List.cons_append, List.intercalate_cons_cons, hmore, List.append_assoc]

namespace Node

variable (d : Dialect)

/-- A root as it is written so far: only an open group has a last combinator. -/
def written (node : Node) : Written :=
  ⟨node.render d true, node.openCombinator⟩

/-- The place of a node matters only for open groups. -/
theorem render_of_not_open {node : Node} (h : node.openCombinator = none) (top : Bool) :
    node.render d top = node.render d true := by
  cases node with
  | leaf p => rfl
  | group c closed children =>
    cases closed with
    | false => simp [openCombinator] at h
    | true => simp [render]

/-- Within a group, an open group is printed in parentheses. -/
theorem render_of_open {node : Node} (h : node.openCombinator ≠ none) :
    node.render d false = '(' :: node.render d true ++ [')'] := by
  obtain ⟨c, hc⟩ := Option.ne_none_iff_exists'.mp h
  obtain ⟨children, rfl⟩ := eq_of_openCombinator hc
  simp [render]

/-- A group of an old root and a new node that is not open. -/
theorem written_pair (c : Combinator) (old : Node) {new : Node} (h : new.openCombinator = none) :
    (group c false [old, new]).written d =
      ⟨old.render d false ++ c.separator ++ new.render d true, some c⟩ := by
  have hplace := render_of_not_open d h false
  simp [written, openCombinator, render, renderAll, List.intercalate_cons_cons, hplace]

/-- An open group with one more child. -/
theorem written_concat (c : Combinator) {children : List Node} (hne : children ≠ []) {new : Node}
    (h : new.openCombinator = none) :
    (group c false (children ++ [new])).written d =
      ⟨(group c false children).render d true ++ c.separator ++ new.render d true, some c⟩ := by
  have hplace := render_of_not_open d h false
  have hparts : children.map (render d false) ≠ [] := by simpa using hne
  simp [written, openCombinator, render, renderAll_eq_map, intercalate_concat _ _ hparts, hplace]

/-- Adding a node to a root writes the text of the node under the combinator. -/
theorem written_extend {P : Predicate → Prop} (c : Combinator) {old new : Node}
    (hold : old.Regular P) (hnew : new.openCombinator = none) :
    (old.extend c new).written d = (old.written d).add c (new.render d true) := by
  by_cases hsame : old.openCombinator = some c
  · obtain ⟨children, rfl⟩ := eq_of_openCombinator hsame
    rw [extend_open, written_concat d c hold.children_ne_nil hnew, Written.add_same (.inr hsame)]
    rfl
  · rw [extend_of_ne hsame, written_pair d c old hnew]
    by_cases hopen : old.openCombinator = none
    · rw [render_of_not_open d hopen, Written.add_same (.inl hopen)]
      rfl
    · have hother : ¬(old.openCombinator = none ∨ old.openCombinator = some c) :=
        not_or.mpr ⟨hopen, hsame⟩
      rw [render_of_open d hopen, Written.add_other hother]
      rfl

/-- A closed group is the text of its root in parentheses. -/
theorem render_close (node : Node) (top : Bool) :
    node.close.render d top = '(' :: node.render d true ++ [')'] := by
  cases node with
  | leaf p => simp [close, render, renderAll]
  | group c closed children => cases closed <;> simp [close, render, renderAll]

end Node

namespace Step

variable (d : Dialect)

mutual

/-- The node of a step is printed as the text of the step. -/
theorem render_node (step : Step) (top : Bool) : step.node.render d top = step.text d := by
  cases step with
  | condition c p => rfl
  | group c first rest =>
    have hfirst : first.node.Regular fun _ => True := HandsOn.regular.node first fun _ _ => trivial
    have hwritten : first.node.written d = ⟨first.text d, none⟩ := by
      rw [Node.written, render_node first true, openCombinator_node]
    have hgrow := written_grow rest hfirst
    rw [node, Node.render_close, text, ← hwritten, ← hgrow]
    rfl

/-- A root is written on by the text of the steps after it. -/
theorem written_grow (steps : List Step) {root : Node} (h : root.Regular fun _ => True) :
    (grow root steps).written d = writeAll d (root.written d) steps := by
  cases steps with
  | nil => rfl
  | cons step steps =>
    have hstep : step.node.Regular fun _ => True := HandsOn.regular.node step fun _ _ => trivial
    have hextend := Node.written_extend d step.combinator h step.openCombinator_node
    rw [grow, writeAll, written_grow steps (h.extend step.combinator hstep), hextend,
      render_node step true]

end

/-- The tree of some steps is printed as their text. -/
theorem render_addSteps (steps : List Step) :
    (({} : Tree).addSteps steps).render d = textAll d steps := by
  cases steps with
  | nil => rfl
  | cons first rest =>
    have hfirst : first.node.Regular fun _ => True := HandsOn.regular.node first fun _ _ => trivial
    have hwritten : first.node.written d = ⟨first.text d, none⟩ := by
      rw [Node.written, render_node, openCombinator_node]
    have hgrow := written_grow d rest hfirst
    rw [Tree.addSteps_empty_cons, textAll, ← hwritten, ← hgrow]
    rfl

end Step

/-! ### Runs -/

/-- A statement has a `WHERE` clause exactly if there is a step, around the text of the steps. -/
theorem Statement.sql_of_steps {s : Statement} {steps : List Step}
    (h : s.conditions = ({} : Tree).addSteps steps) :
    s.sql = "SELECT ".toList ++ s.outputs.render ++ s.sources.render s.dialect ++
      (if steps = [] then [] else " WHERE (".toList ++ Step.textAll s.dialect steps ++ [')']) ++
        s.orderClause ++ s.limitClause := by
  have hwhere : s.whereClause =
      if steps = [] then [] else " WHERE (".toList ++ Step.textAll s.dialect steps ++ [')'] := by
    rw [whereClause, h, Tree.isEmpty_addSteps, Step.render_addSteps]
    cases steps <;> rfl
  unfold sql
  rw [hwhere]

/-- Conditions can be written down without a tree. Whether a call is accepted does not depend on
    what is in the tree; the tree that calls leave behind, where there was none before, is printed
    as the text of their steps; and a statement has that text between ` WHERE (` and `)` exactly if
    there are any steps. -/
theorem conditions_written_without_tree :
    (∀ (call : ConditionCall) (ctx : Context),
      (call.run ctx).verdict = (call.trace ctx.cap).verdict) ∧
    (∀ (script : Script) (ctx : Context), ctx.tree.isEmpty = true →
      (script.run ctx).verdict = (script.trace ctx.cap).verdict ∧
      ∀ d : Dialect,
        (script.run ctx).state.tree.render d = Step.textAll d (script.trace ctx.cap).steps) ∧
    (∀ (s : Statement) (calls : List Call), s.hasConditions = false →
      let t := s.run calls
      let steps := Call.stepsAll s.settings.maxInList calls
      (∀ d : Dialect, t.conditions.render d = Step.textAll d steps) ∧
      (t.hasConditions = true ↔ steps ≠ []) ∧
      t.sql = "SELECT ".toList ++ t.outputs.render ++ t.sources.render t.dialect ++
        (if steps = [] then [] else " WHERE (".toList ++ Step.textAll t.dialect steps ++ [')']) ++
          t.orderClause ++ t.limitClause) := by
  refine ⟨fun call ctx => (call.describes_run ctx).verdict, ?_, ?_⟩
  · intro script ctx hempty
    have hrun := script.describes_run ctx
    refine ⟨hrun.verdict, fun d => ?_⟩
    rw [hrun.state, Tree.eq_empty hempty]
    exact Step.render_addSteps d _
  · intro s calls hnone t steps
    have hconditions : t.conditions = ({} : Tree).addSteps steps := by
      rw [← s.eq_empty_of_hasConditions hnone]
      exact s.conditions_run calls
    refine ⟨fun d => ?_, ?_, ?_⟩
    · rw [hconditions, Step.render_addSteps]
    · rw [Statement.hasConditions, hconditions, Tree.isEmpty_addSteps]
      cases steps <;> simp [Tree.isEmpty]
    · exact Statement.sql_of_steps hconditions

/-- Calls with a rejected one, a verbatim one, a change of combinator, and a group with a guarded
    rejected call and an empty group in it. -/
def callsWithGroups : List Call :=
  [.condition (.group .or (.add false .or (.equal "a".toList (.int 1)) .done)),
    .condition (.add .and (.inList false "b".toList [])),
    .condition (.add .and (.raw "f(b)".toList ">".toList (.int 2))),
    .condition (.group .or
      (.add false .and (.null true (.many ["c".toList, "d".toList]))
        (.add true .or (.equal "no column".toList .null)
          (.group false .or .done
            (.add false .or (.equal "e".toList (.bool true)) .done)))))]

theorem conditions_written_without_tree_callsWithGroups :
    (Statement.withDialect .ansi).hasConditions = false ∧
      ((Statement.withDialect .ansi).run callsWithGroups).sql =
        "SELECT * WHERE (((\x60a\x60 = 1) AND f(b) > 2) OR ".toList ++
          "((\x60c\x60 IS NOT NULL AND \x60d\x60 IS NOT NULL) OR \x60e\x60 = 1))".toList ∧
      Context.standalone.tree.isEmpty = true ∧
      (Script.run (.group false .and (.add false .or (.equal "a".toList (.int 1)) .done) .done)
        Context.standalone).state.tree.render .mysql = "(\x60a\x60 = 1)".toList := by
  have hsql := (conditions_written_without_tree.2.2 (.withDialect .ansi) callsWithGroups rfl).2.2
  have hrender := (conditions_written_without_tree.2.1
    (.group false .and (.add false .or (.equal "a".toList (.int 1)) .done) .done)
    Context.standalone rfl).2 .mysql
  exact ⟨rfl, hsql.trans (by decide), rfl, hrender.trans (by decide)⟩

end SqlSelect
