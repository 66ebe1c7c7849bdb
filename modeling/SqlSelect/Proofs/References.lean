import SqlSelect.Proofs.Plain

/-!
Joins refer back. The conditions of a join compare fields of its target with fields of a source that
was there before: a table, or the target of an earlier join. Sources are only ever added at the ends
of their lists, and tables are printed before all joins, so this stays true after any further calls;
and a reader of the text has seen every qualifier in an `ON`, as an alias or as the name of a table
without one, by the time it is used.

        FROM a, b AS c   JOIN d ON d.x = c.y   JOIN e ON e.x = d.y
                  ↑──────────────────┘    ↑──────────────┘
-/

namespace SqlSelect

/-! ### Conditions of a tree -/

namespace Node

mutual

/-- The conditions of a node, in order. -/
def predicates : Node → List Predicate
  | leaf p => [p]
  | group _ _ children => predicatesAll children

/-- The conditions of some nodes, in order. -/
def predicatesAll : List Node → List Predicate
  | [] => []
  | node :: nodes => node.predicates ++ predicatesAll nodes

end

theorem predicatesAll_append (a b : List Node) :
    predicatesAll (a ++ b) = predicatesAll a ++ predicatesAll b := by
  induction a with
  | nil => rfl
  | cons node a ih => rw [List.cons_append, predicatesAll, ih, predicatesAll, List.append_assoc]

theorem predicates_extend (c : Combinator) (old new : Node) :
    (old.extend c new).predicates = old.predicates ++ new.predicates := by
  by_cases hsame : old.openCombinator = some c
  · obtain ⟨children, rfl⟩ := eq_of_openCombinator hsame
    simp [extend_open, predicates, predicatesAll, predicatesAll_append]
  · simp [extend_of_ne hsame, predicates, predicatesAll]

end Node

namespace Tree

/-- The conditions of a tree, in order. -/
def predicates (t : Tree) : List Predicate :=
  t.root.elim [] Node.predicates

/-- A node is added behind all conditions, wherever it goes. -/
theorem predicates_attach (c : Combinator) (t : Tree) (node : Node) :
    (t.attach c node).predicates = t.predicates ++ node.predicates := by
  obtain ⟨root⟩ := t
  cases root with
  | none => rfl
  | some root => exact Node.predicates_extend c root node

theorem predicates_attachAll (c : Combinator) (t : Tree) (predicates : List Predicate) :
    (t.attachAll c predicates).predicates = t.predicates ++ predicates := by
  induction predicates generalizing t with
  | nil => simp [attachAll]
  | cons p predicates ih =>
    change ((t.attach c (.leaf p)).attachAll c predicates).predicates = _
    rw [ih, predicates_attach]
    simp [Node.predicates]

/-- Conditions under one combinator are printed with the combinator between them. -/
theorem render_attachAll (d : Dialect) (c : Combinator) (predicates : List Predicate) :
    (({} : Tree).attachAll c predicates).render d =
      List.intercalate c.separator (predicates.map (Predicate.render d)) := by
  rcases predicates with - | ⟨p, - | ⟨q, predicates⟩⟩
  · rfl
  · simp [attachAll, attach, render, Node.render]
  · have hleaves : ((p :: q :: predicates).map Node.leaf).map (Node.render d false) =
        (p :: q :: predicates).map (Predicate.render d) := by
      rw [List.map_map]
      rfl
    rw [attachAll_cons_cons, ← hleaves, ← Node.renderAll_eq_map]
    rfl

end Tree

/-! ### Sources -/

/-- Conditions that compare fields of the target of a join with fields of sources of some names. -/
def Join.RefersTo (j : Join) (names : List Segment) : Prop :=
  ∃ c predicates, predicates ≠ [] ∧ j.on = ({} : Tree).attachAll c predicates ∧
    ∀ p ∈ predicates, ∃ field operator near nearField, near ∈ names ∧
      p = .columns ⟨some j.target.effectiveName, field⟩ operator ⟨some near, nearField⟩

/-- Sources whose joins refer to tables and earlier joins. -/
structure Sources.Linked (s : Sources) : Prop where
  tables_ne_nil : s.joins ≠ [] → s.tables ≠ []
  refersTo : ∀ before j after, s.joins = before ++ j :: after →
    j.RefersTo ((s.tables ++ before.map Join.target).map Source.effectiveName)

theorem Join.RefersTo.mono {j : Join} {names more : List Segment} (h : j.RefersTo names)
    (hsub : ∀ name ∈ names, name ∈ more) : j.RefersTo more := by
  obtain ⟨c, predicates, hne, hon, hall⟩ := h
  refine ⟨c, predicates, hne, hon, fun p hp => ?_⟩
  obtain ⟨field, operator, near, nearField, hnear, heq⟩ := hall p hp
  exact ⟨field, operator, near, nearField, hsub near hnear, heq⟩

/-- The conditions that are built for a join refer to the source they are built with. -/
theorem JoinFields.refersTo_build {fields : JoinFields} {kind : JoinKind} {target : Source}
    {near : Segment} {on : Tree} (h : fields.build target.effectiveName near = .ok on)
    {names : List Segment} (hnear : near ∈ names) : Join.RefersTo ⟨kind, target, on⟩ names := by
  obtain ⟨pairs, operator, hne, -, -, rfl⟩ := build_eq_ok.mp h
  refine ⟨fields.combinator, _, ?_, rfl, ?_⟩
  · simpa using hne
  · intro p hp
    obtain ⟨pair, -, rfl⟩ := List.mem_map.mp hp
    exact ⟨pair.1, operator, near, pair.2, hnear, rfl⟩

namespace Sources

theorem find?_mem {s : Sources} {name : Text} {known : Segment} (h : s.find? name = some known) :
    known ∈ s.names :=
  List.mem_of_find?_eq_some h

theorem Linked.empty : ({} : Sources).Linked where
  tables_ne_nil h := absurd rfl h
  refersTo before j after h := by simp at h

/-- Tables may be added at any time. -/
theorem Linked.addTables {s s' : Sources} {new : List Source} (h : s.Linked)
    (hadd : s.addTables new = .ok s') : s'.Linked := by
  obtain ⟨-, rfl⟩ := addTables_eq_ok.mp hadd
  refine ⟨fun hjoins => ?_, fun before j after heq => ?_⟩
  · exact List.append_ne_nil_of_left_ne_nil (h.tables_ne_nil hjoins) new
  · refine (h.refersTo before j after heq).mono fun name hname => ?_
    simp only [List.map_append, List.mem_append] at hname ⊢
    tauto

/-- A join is onto a source that is there. -/
theorem Linked.addJoin {s s' : Sources} {kind : JoinKind} {target : Source} {localTable : Text}
    {fields : JoinFields} (h : s.Linked)
    (hadd : s.addJoin kind target localTable fields = .ok s') : s'.Linked := by
  obtain ⟨near, on, hfind, -, hbuild, rfl⟩ := addJoin_eq_ok.mp hadd
  have hnear : near ∈ (s.tables ++ s.joins.map Join.target).map Source.effectiveName := by
    rw [← names_eq]
    exact find?_mem hfind
  refine ⟨fun _ htables => ?_, fun before j after heq => ?_⟩
  · have hjoins : s.joins = [] := by
      by_contra hjoins
      exact h.tables_ne_nil hjoins htables
    simp [hjoins, show s.tables = [] from htables] at hnear
  · rcases List.eq_nil_or_concat after with rfl | ⟨after, last, rfl⟩
    · obtain ⟨rfl, hj⟩ := List.append_inj' heq rfl
      rw [← (List.cons.inj hj).1]
      exact JoinFields.refersTo_build hbuild hnear
    · rw [List.concat_eq_append, ← List.cons_append, ← List.append_assoc] at heq
      exact h.refersTo before j after (List.append_inj' heq rfl).1

/-- Sources that have come from others by adding tables and joins at the ends. -/
structure Extends (s s' : Sources) : Prop where
  tables : s.tables <+: s'.tables
  joins : s.joins <+: s'.joins

end Sources

/-! ### Their text -/

/-- A source shows a name in its text: as its alias, or as all there is. -/
def Source.Shows (t : Source) (name : Segment) : Prop :=
  (∃ text, t.render = text ++ " AS ".toList ++ name.render) ∨ t.render = name.render

/-- A source shows the name by which it is known. -/
theorem Source.shows_effectiveName (t : Source) : t.Shows t.effectiveName := by
  cases t with
  | table name aliasName =>
    cases aliasName with
    | none => exact .inr rfl
    | some aliasName =>
      by_cases h : aliasName = name
      · exact .inr (by rw [render, if_pos h, effectiveName, h])
      · exact .inl ⟨name.render, by rw [render, if_neg h, effectiveName]⟩
  | raw expression aliasName => exact .inl ⟨expression, rfl⟩

theorem infix_intercalate {α : Type} (separator : List α) {part : List α} {parts : List (List α)}
    (h : part ∈ parts) : part <:+: List.intercalate separator parts := by
  induction parts with
  | nil => simp at h
  | cons first parts ih =>
    cases parts with
    | nil =>
      simp [List.mem_singleton.mp h]
    | cons next parts =>
      rw [List.intercalate_cons_cons]
      rcases List.mem_cons.mp h with rfl | h
      · exact ⟨[], separator ++ List.intercalate separator (next :: parts), by simp⟩
      · exact (ih h).trans (List.suffix_append _ _).isInfix

namespace Sources

variable (d : Dialect)

/-- Every source is printed among the sources. -/
theorem infix_render {s : Sources} {t : Source} (h : t ∈ s.tables ++ s.joins.map Join.target) :
    t.render <:+: s.render d := by
  rw [render]
  rcases List.mem_append.mp h with h | h
  · have hne : s.tables.isEmpty = false := by
      cases htables : s.tables with
      | nil => simp [htables] at h
      | cons first rest => rfl
    have hpart := infix_intercalate [','] (List.mem_map_of_mem (f := Source.render) h)
    rw [hne]
    exact (hpart.trans (List.suffix_append _ _).isInfix).trans (List.prefix_append _ _).isInfix
  · obtain ⟨j, hj, rfl⟩ := List.mem_map.mp h
    have hjoin : j.target.render <:+: ' ' :: j.render d :=
      ⟨' ' :: j.kind.text ++ [' '], " ON ".toList ++ j.on.render d, by
        simp only [Join.render, List.append_assoc, List.cons_append, List.nil_append]⟩
    have hjoins : ' ' :: j.render d <:+: s.renderJoins d :=
      List.infix_of_mem_flatten (List.mem_map_of_mem (f := fun j => ' ' :: j.render d) hj)
    exact (hjoin.trans hjoins).trans (List.suffix_append _ _).isInfix

/-- The text of the sources, split at a join. -/
theorem render_split {s : Sources} {before after : List Join} {j : Join}
    (h : s.joins = before ++ j :: after) :
    s.render d = ({ s with joins := before } : Sources).render d ++ ' ' :: j.render d ++
      ({ s with joins := after } : Sources).renderJoins d := by
  have hjoins : s.renderJoins d = ({ s with joins := before } : Sources).renderJoins d ++
      (' ' :: j.render d ++ ({ s with joins := after } : Sources).renderJoins d) := by
    rw [renderJoins, h, List.flatMap_append, List.flatMap_cons]
    rfl
  rw [render, hjoins, render]
  simp only [List.append_assoc]

end Sources

/-! ### Statements -/

namespace Statement

/-- The text of a statement up to where a join that comes after the joins `before` is printed. -/
def textBefore (s : Statement) (before : List Join) : Text :=
  "SELECT ".toList ++ s.outputs.render ++
    ({ s.sources with joins := before } : Sources).render s.dialect

/-- A join after the joins `before` that uses no name in its `ON` but that of its own target, shown
    right in front, and those of tables and earlier joins, each shown where these are printed. -/
structure Announces (s : Statement) (before : List Join) (j : Join) : Prop where
  on_isEmpty : j.on.isEmpty = false
  compares : ∀ p ∈ j.on.predicates, ∃ field operator t nearField,
    t ∈ s.sources.tables ++ before.map Join.target ∧
      p = .columns ⟨some j.target.effectiveName, field⟩ operator
        ⟨some t.effectiveName, nearField⟩ ∧
      t.Shows t.effectiveName ∧
      t.render <:+: ({ s.sources with joins := before } : Sources).render s.dialect
  target_shows : j.target.Shows j.target.effectiveName
  on_render : ∃ c : Combinator, j.on.render s.dialect =
    List.intercalate c.separator (j.on.predicates.map (Predicate.render s.dialect))
  printed : s.textBefore before ++ ' ' :: j.kind.text ++ ' ' :: j.target.render ++
    " ON ".toList ++ j.on.render s.dialect <+: s.sql

theorem announces {s : Statement} (h : s.sources.Linked) {before after : List Join} {j : Join}
    (heq : s.sources.joins = before ++ j :: after) : s.Announces before j := by
  obtain ⟨c, predicates, hne, hon, hall⟩ := h.refersTo before j after heq
  have hpredicates : j.on.predicates = predicates := by
    rw [hon, Tree.predicates_attachAll]
    rfl
  refine ⟨?_, ?_, j.target.shows_effectiveName, ⟨c, ?_⟩, ?_⟩
  · rw [hon]
    rcases predicates with - | ⟨p, - | ⟨q, predicates⟩⟩
    · exact absurd rfl hne
    · rfl
    · rw [Tree.attachAll_cons_cons]
      rfl
  · intro p hp
    rw [hpredicates] at hp
    obtain ⟨field, operator, near, nearField, hnear, rfl⟩ := hall p hp
    obtain ⟨t, ht, rfl⟩ := List.mem_map.mp hnear
    exact ⟨field, operator, t, nearField, ht, rfl, t.shows_effectiveName,
      Sources.infix_render s.dialect ht⟩
  · rw [hpredicates, hon, Tree.render_attachAll]
  · refine ⟨({ s.sources with joins := after } : Sources).renderJoins s.dialect ++ s.whereClause ++
      s.orderClause ++ s.limitClause, ?_⟩
    unfold sql textBefore
    simp only [Sources.render_split s.dialect heq, Join.render, List.append_assoc,
      List.cons_append]

/-- Every statement that calls lead to has joins that refer back. -/
theorem linked_run (d : Dialect) (calls : List Call) :
    ((withDialect d).run calls).sources.Linked :=
  sources_run (I := Sources.Linked) (fun h => h.addTables) (fun h => h.addJoin)
    Sources.Linked.empty calls

/-- Calls leave tables and joins where they are. -/
theorem extends_run (s : Statement) (calls : List Call) :
    s.sources.Extends (s.run calls).sources := by
  refine sources_run (I := s.sources.Extends) ?_ ?_ ⟨List.prefix_rfl, List.prefix_rfl⟩ calls
  · intro t t' new h hadd
    obtain ⟨-, rfl⟩ := Sources.addTables_eq_ok.mp hadd
    exact ⟨h.tables.trans (List.prefix_append _ _), h.joins⟩
  · intro t t' kind target localTable fields h hadd
    obtain ⟨near, on, -, -, -, rfl⟩ := Sources.addJoin_eq_ok.mp hadd
    exact ⟨h.tables, h.joins.trans (List.prefix_append _ _)⟩

theorem run_append (s : Statement) (calls more : List Call) :
    s.run (calls ++ more) = (s.run calls).run more :=
  List.foldl_append

/-- Joins refer back, now and after any more calls. A statement with a join has a table; and every
    join compares fields of its own target with fields of tables and earlier joins, whose names the
    text shows before. It keeps its place and all of this whatever is called next. -/
theorem joins_refer_back (d : Dialect) (calls more : List Call) :
    let s := (withDialect d).run calls
    (s.sources.joins ≠ [] → s.sources.tables ≠ []) ∧
    ∀ before j after, s.sources.joins = before ++ j :: after →
      s.Announces before j ∧
      ∃ after', (s.run more).sources.joins = before ++ j :: after' ∧
        (s.run more).Announces before j := by
  intro s
  have hlinked : s.sources.Linked := linked_run d calls
  have hmore : (s.run more).sources.Linked := by
    rw [← run_append]
    exact linked_run d (calls ++ more)
  refine ⟨hlinked.tables_ne_nil, fun before j after heq => ⟨announces hlinked heq, ?_⟩⟩
  obtain ⟨new, hnew⟩ := (s.extends_run more).joins
  have hplace : (s.run more).sources.joins = before ++ j :: (after ++ new) := by
    rw [← hnew, heq]
    simp
  exact ⟨after ++ new, hplace, announces hmore hplace⟩

/-- A join onto a join, under an alias that is the name of a table with another alias. -/
def chainedJoins : List Call :=
  [.fromAliased "a".toList "x".toList,
    .joinTarget .left (.aliased "b".toList "a".toList) "x".toList
      (.pair "x_id".toList none "id".toList),
    .joinTarget .inner (.table "c".toList) "a".toList
      (.pairs [("p".toList, "q".toList), ("r".toList, "s".toList)] .or)]

theorem joins_refer_back_chainedJoins :
    ((withDialect .ansi).run chainedJoins).sql =
      "SELECT * FROM \x60a\x60 AS \x60x\x60 ".toList ++
        "LEFT JOIN \x60b\x60 AS \x60a\x60 ON \x60a\x60.\x60x_id\x60=\x60x\x60.\x60id\x60 ".toList ++
        "INNER JOIN \x60c\x60 ON \x60c\x60.\x60p\x60=\x60a\x60.\x60q\x60 OR ".toList ++
        "\x60c\x60.\x60r\x60=\x60a\x60.\x60s\x60".toList ∧
    ∃ first second, ((withDialect .ansi).run chainedJoins).sources.joins = [first] ++ [second] ∧
      (((withDialect .ansi).run chainedJoins).run [.fromTables (.one "d".toList)]).Announces
        [first] second := by
  refine ⟨by decide, _, _, rfl, ?_⟩
  obtain ⟨-, after, -, hlater⟩ :=
    (joins_refer_back .ansi chainedJoins [.fromTables (.one "d".toList)]).2 [_] _ [] rfl
  exact hlater

end Statement

end SqlSelect
