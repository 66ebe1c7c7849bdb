import SqlSelect.Proofs.Reading.Vocabulary

/-!
Reading the parts of clauses: identifiers, sources with their aliases, sort keys, windows and single
conditions. Each reader takes the tokens of a part off the front and leaves the rest, and what is
proved of it is that it undoes the printing, whatever follows. Values cannot be told from others
with the same text, so a condition is read with the texts of its values.
-/

namespace SqlSelect

/-- Lists with a given beginning, without it. -/
theorem isPrefixOf?_append {α : Type} [BEq α] [LawfulBEq α] (a rest : List α) :
    a.isPrefixOf? (a ++ rest) = some rest := by
  induction a with
  | nil => rfl
  | cons x a ih => rw [List.cons_append, List.isPrefixOf?, if_pos (beq_self_eq_true x), ih]

/-- Items that are read one by one are read as a list. -/
theorem mapM_map_eq_some {α β γ : Type} {f : α → β} {read : β → Option γ} {g : α → γ}
    {items : List α} (h : ∀ a ∈ items, read (f a) = some (g a)) :
    (items.map f).mapM read = some (items.map g) := by
  induction items with
  | nil => rfl
  | cons a items ih =>
    have hrest := ih fun b hb => h b (List.mem_cons_of_mem _ hb)
    rw [List.map_cons, List.mapM_cons, h a (by simp), hrest]
    rfl

/-- Reads items with commas between them. -/
def readItems {β : Type} (read : List Token → Option β) (tokens : List Token) : Option (List β) :=
  (tokens.splitOn (.mark ',')).mapM read

/-- Items are read one by one if there are any and none has a comma of its own. -/
theorem readItems_commas {α β : Type} {tokens : α → List Token} {read : List Token → Option β}
    {f : α → β} {items : List α} (hne : items ≠ [])
    (h : ∀ a ∈ items, .mark ',' ∉ tokens a ∧ read (tokens a) = some (f a)) :
    readItems read (List.intercalate [.mark ','] (items.map tokens)) = some (items.map f) := by
  have hsplit : (List.intercalate [.mark ','] (items.map tokens)).splitOn (.mark ',') =
      items.map tokens := by
    refine List.splitOn_intercalate _ ?_ (by simpa using hne)
    intro part hpart
    obtain ⟨a, ha, rfl⟩ := List.mem_map.mp hpart
    exact (h a ha).1
  rw [readItems, hsplit]
  exact mapM_map_eq_some fun a ha => (h a ha).2

/-! ### Names -/

/-- The segment with these characters. -/
def Segment.read (s : Text) : Option Segment :=
  (Segment.ofText s s).toOption

theorem Segment.read_text (s : Segment) : Segment.read s.text = some s := by
  rw [read, ofText_eq_ok.mpr rfl]
  rfl

/-- An identifier and the tokens after it. -/
def Identifier.read : List Token → Option (Identifier × List Token)
  | .name a :: rest =>
    match rest with
    | .word w :: .name b :: more =>
      if w = ['.'] then do
        let table ← Segment.read a
        let name ← Segment.read b
        return (⟨some table, name⟩, more)
      else (Segment.read a).map fun name => (⟨none, name⟩, rest)
    | _ => (Segment.read a).map fun name => (⟨none, name⟩, rest)
  | _ => none

/-- An identifier is read back in front of anything but a point. -/
theorem Identifier.read_tokens (i : Identifier) (rest : List Token)
    (h : rest.head? ≠ some (keyword ".")) :
    Identifier.read (i.tokens ++ rest) = some (i, rest) := by
  obtain ⟨qualifier, name⟩ := i
  cases qualifier with
  | none =>
    have hname := name.read_text
    change Identifier.read (.name name.text :: rest) = _
    unfold Identifier.read
    simp only
    split
    · next w b more =>
      have hw : w ≠ ['.'] := by
        rintro rfl
        exact h rfl
      rw [if_neg hw, hname]
      rfl
    · rw [hname]
      rfl
  | some table =>
    change Identifier.read (.name table.text :: .word ['.'] :: .name name.text :: rest) = _
    simp [Identifier.read, table.read_text, name.read_text]

/-- An alias, if one comes first, and the tokens after it. -/
def readAlias (tokens : List Token) : Option (Option Segment × List Token) :=
  match [blank, keyword "AS", blank].isPrefixOf? tokens with
  | some (.name a :: rest) => (Segment.read a).map fun shown => (some shown, rest)
  | some _ => none
  | none => some (none, tokens)

theorem readAlias_name (s : Segment) (rest : List Token) :
    readAlias (blank :: keyword "AS" :: blank :: s.token :: rest) = some (some s, rest) := by
  have hprefix : [blank, keyword "AS", blank].isPrefixOf?
      (blank :: keyword "AS" :: blank :: s.token :: rest) = some (.name s.text :: rest) :=
    isPrefixOf?_append _ _
  rw [readAlias, hprefix]
  simp only
  rw [s.read_text]
  rfl

/-! ### Conditions -/

/-- A single condition with the texts of its values in their place. -/
inductive Test where
  | compare (subject : Subject) (operator : Operator) (value : Text)
  | null (column : Identifier) (negated : Bool)
  | inList (column : Identifier) (values : List Text) (negated : Bool)
  | columns (left : Identifier) (operator : Operator) (right : Identifier)
  deriving DecidableEq

/-- The condition with the texts of its values. -/
def Predicate.test (d : Dialect) : Predicate → Test
  | compare subject operator value => .compare subject operator (value.render d)
  | null column negated => .null column negated
  | inList column values negated => .inList column (values.map (Literal.render d)) negated
  | columns left operator right => .columns left operator right

/-- A left-hand side and the tokens after it. -/
def Subject.read (tokens : List Token) : Option (Subject × List Token) :=
  match [keyword "LENGTH", .mark '('].isPrefixOf? tokens with
  | some inside =>
    match Identifier.read inside with
    | some (name, .mark ')' :: rest) => some (.length name, rest)
    | _ => none
  | none => (Identifier.read tokens).map fun (name, rest) => (.column name, rest)

theorem Subject.read_tokens (subject : Subject) (rest : List Token)
    (h : ∀ e, subject ≠ .raw e) (hr : rest.head? ≠ some (keyword ".")) :
    Subject.read (subject.tokens ++ rest) = some (subject, rest) := by
  cases subject with
  | raw e => exact (h e rfl).elim
  | column name =>
    have hlength : [keyword "LENGTH", .mark '('].isPrefixOf? (name.tokens ++ rest) = none := by
      rw [Identifier.tokens]
      cases name.qualifier <;> rfl
    rw [tokens, read, hlength]
    simp only
    rw [name.read_tokens rest hr]
    rfl
  | length name =>
    have hlength : [keyword "LENGTH", .mark '('].isPrefixOf? ((length name).tokens ++ rest) =
        some (name.tokens ++ .mark ')' :: rest) := by
      have happend := isPrefixOf?_append [keyword "LENGTH", .mark '(']
        (name.tokens ++ .mark ')' :: rest)
      rw [← happend, tokens]
      simp only [List.cons_append, List.append_assoc, List.nil_append]
    have hname : Identifier.read (name.tokens ++ .mark ')' :: rest) =
        some (name, .mark ')' :: rest) := name.read_tokens _ (by simp)
    rw [read, hlength]
    simp only
    rw [hname]
    rfl

/-- All operators. -/
def Operator.all : List Operator :=
  [equal, unequal, different, greater, less, atLeast, atMost, like, notLike]

/-- An operator with blanks around it, and the tokens after it. -/
def Operator.read (tokens : List Token) : Option (Operator × List Token) :=
  all.findSome? fun o =>
    ((blank :: (o.tokens ++ [blank])).isPrefixOf? tokens).map fun rest => (o, rest)

theorem Operator.read_tokens (o : Operator) (rest : List Token) :
    Operator.read (blank :: (o.tokens ++ blank :: rest)) = some (o, rest) := by
  cases o <;> rfl

/-- What stands between two columns that are compared: blanks surround words, but not signs. -/
def Operator.between (o : Operator) : List Token :=
  if o.isKeyword then blank :: (o.tokens ++ [blank]) else o.tokens

/-- An operator between two columns, and the tokens after it. -/
def Operator.readBetween (tokens : List Token) : Option (Operator × List Token) :=
  all.findSome? fun o => (o.between.isPrefixOf? tokens).map fun rest => (o, rest)

/-- The text of a value. -/
def Token.value? (quote : Text → Text) : Token → Option Text
  | word w => some w
  | literal payload => some (quote payload)
  | _ => none

theorem Literal.value?_token (d : Dialect) (l : Literal) :
    l.token.value? d.quote = some (l.render d) := by
  rw [← l.text_token d]
  rcases l.token_cases with ⟨payload, hl⟩ | ⟨w, hl, -⟩
  · rw [hl]
    rfl
  · rw [hl]
    rfl

namespace Test

/-- What follows the column in a test for `NULL`. -/
def nullTokens (negated : Bool) : List Token :=
  blank :: keyword "IS" :: blank ::
    (if negated then [keyword "NOT", blank, keyword "NULL"] else [keyword "NULL"])

/-- A comparison with a value. -/
def readCompare (quote : Text → Text) (subject : Subject) (tokens : List Token) : Option Test :=
  match Operator.read tokens with
  | some (o, [v]) => (v.value? quote).map fun value => .compare subject o value
  | _ => none

/-- A test for `NULL`. -/
def readNull (column : Identifier) (tokens : List Token) : Option Test :=
  [false, true].findSome? fun negated =>
    if tokens = nullTokens negated then some (.null column negated) else none

/-- The texts of a list of values. -/
def readValues (quote : Text → Text) (tokens : List Token) : Option (List Text) :=
  if tokens = [] then some []
  else
    readItems (fun part => match part with
      | [v] => v.value? quote
      | _ => none) tokens

/-- Membership in a list of values. -/
def readList (quote : Text → Text) (column : Identifier) (tokens : List Token) : Option Test :=
  [false, true].findSome? fun negated =>
    ((blank :: (membership negated ++ [.mark '('])).isPrefixOf? tokens).bind fun inside =>
      (readValues quote inside.dropLast).map fun values => .inList column values negated

/-- A comparison with another column. -/
def readColumns (column : Identifier) (tokens : List Token) : Option Test :=
  match Operator.readBetween tokens with
  | some (o, more) =>
    match Identifier.read more with
    | some (right, []) => some (.columns column o right)
    | _ => none
  | none => none

/-- Reads a single condition. -/
def read (quote : Text → Text) (tokens : List Token) : Option Test :=
  match Subject.read tokens with
  | some (.column name, rest) =>
    readCompare quote (.column name) rest <|> readNull name rest <|> readList quote name rest <|>
      readColumns name rest
  | some (subject, rest) => readCompare quote subject rest
  | none => none

theorem readCompare_tokens (d : Dialect) (subject : Subject) (o : Operator) (l : Literal) :
    readCompare d.quote subject (blank :: (o.tokens ++ [blank, l.token])) =
      some (.compare subject o (l.render d)) := by
  rw [readCompare, o.read_tokens [l.token]]
  simp only
  rw [l.value?_token d]
  rfl

theorem readNull_tokens (column : Identifier) (negated : Bool) :
    readNull column (nullTokens negated) = some (.null column negated) := by
  cases negated <;> rfl

theorem readValues_tokens (d : Dialect) (values : List Literal) :
    readValues d.quote (valueTokens values) = some (values.map (Literal.render d)) := by
  cases values with
  | nil => rfl
  | cons l values =>
    have hne : valueTokens (l :: values) ≠ [] := by
      cases values <;> simp [valueTokens]
    rw [readValues, if_neg hne]
    refine readItems_commas (by simp) ?_
    intro v _
    refine ⟨?_, v.value?_token d⟩
    simp [(v.token_ne_mark ',').symm]

theorem readList_tokens (d : Dialect) (column : Identifier) (values : List Literal)
    (negated : Bool) :
    readList d.quote column
        (blank :: (membership negated ++ .mark '(' :: (valueTokens values ++ [.mark ')']))) =
      some (.inList column (values.map (Literal.render d)) negated) := by
  have hvalues : readValues d.quote (valueTokens values ++ [Token.mark ')']).dropLast =
      some (values.map (Literal.render d)) := by
    rw [List.dropLast_concat, readValues_tokens]
  generalize valueTokens values ++ [Token.mark ')'] = inside at hvalues
  have hprefix : ∀ n, (blank :: (membership n ++ [.mark '('])).isPrefixOf?
      (blank :: (membership negated ++ .mark '(' :: inside)) =
        if n = negated then some inside else none := by
    intro n
    cases n <;> cases negated <;> rfl
  simp only [readList, List.findSome?_cons, hprefix]
  cases negated <;> simp [hvalues]

theorem readColumns_tokens (column : Identifier) (o : Operator) (right : Identifier) :
    readColumns column (o.between ++ right.tokens) = some (.columns column o right) := by
  have hoperator : Operator.readBetween (o.between ++ right.tokens) = some (o, right.tokens) := by
    cases o <;> rfl
  have hright := right.read_tokens [] (by simp)
  rw [List.append_nil] at hright
  rw [readColumns, hoperator]
  simp only
  rw [hright]

/-- A condition on a column is the first of the four kinds that its tokens after the column are. -/
theorem read_column (quote : Text → Text) (column : Identifier) {rest : List Token}
    (h : rest.head? ≠ some (keyword ".")) : read quote (column.tokens ++ rest) =
      (readCompare quote (.column column) rest <|> readNull column rest <|>
        readList quote column rest <|> readColumns column rest) := by
  have hsubject : Subject.read (column.tokens ++ rest) = some (.column column, rest) :=
    Subject.read_tokens (.column column) rest (by simp) h
  rw [read, hsubject]

end Test

/-- A single condition is read with the texts of its values. -/
theorem Predicate.read_tokens (d : Dialect) {p : Predicate}
    (h : p.isTest = true ∨ p.isFields = true) : Test.read d.quote p.tokens = some (p.test d) := by
  cases p with
  | compare subject operator value =>
    have hs : ∀ e, subject ≠ .raw e := by
      rintro e rfl
      simp [isTest, isFields] at h
    have hsubject := subject.read_tokens (blank :: (operator.tokens ++ [blank, value.token])) hs
      (by simp)
    have hcompare := Test.readCompare_tokens d subject operator value
    rw [tokens, Test.read, hsubject]
    cases subject with
    | raw e => exact (hs e rfl).elim
    | column name => simp [hcompare, test]
    | length name => exact hcompare
  | null column negated =>
    have hcompare : Test.readCompare d.quote (.column column) (Test.nullTokens negated) = none := by
      cases negated <;> rfl
    change Test.read d.quote (column.tokens ++ Test.nullTokens negated) = _
    rw [Test.read_column d.quote column (by simp [Test.nullTokens])]
    simp [hcompare, Test.readNull_tokens, test]
  | inList column values negated =>
    have hlist := Test.readList_tokens d column values negated
    rw [tokens]
    generalize valueTokens values ++ [Token.mark ')'] = inside at hlist
    have hcompare : Test.readCompare d.quote (.column column)
        (blank :: (membership negated ++ .mark '(' :: inside)) = none := by
      cases negated <;> rfl
    have hnull : Test.readNull column
        (blank :: (membership negated ++ .mark '(' :: inside)) = none := by
      cases negated <;> simp [Test.readNull, Test.nullTokens, membership]
    rw [Test.read_column d.quote column (by simp)]
    simp [hcompare, hnull, hlist, test]
  | columns left operator right =>
    have htokens : (columns left operator right).tokens =
        left.tokens ++ (operator.between ++ right.tokens) := by
      rw [tokens, Operator.between]
      split <;> simp
    have hpoint : (operator.between ++ right.tokens).head? ≠ some (keyword ".") := by
      obtain ⟨t, more, hbetween, ht⟩ :
          ∃ t more, operator.between = t :: more ∧ t ≠ keyword "." := by
        cases operator <;> exact ⟨_, _, rfl, by decide⟩
      rw [hbetween]
      simpa using ht
    -- A name is no value, so what follows the operator tells the two comparisons apart.
    have hcompare : Test.readCompare d.quote (.column left) (operator.between ++ right.tokens) =
        none := by
      obtain ⟨qualifier, name⟩ := right
      cases qualifier <;> cases operator <;> rfl
    have hnull : Test.readNull left (operator.between ++ right.tokens) = none := by
      cases operator <;> rfl
    have hlist : Test.readList d.quote left (operator.between ++ right.tokens) = none := by
      cases operator <;> rfl
    rw [htokens, Test.read_column d.quote left hpoint]
    simp [hcompare, hnull, hlist, Test.readColumns_tokens, test]

/-! ### Outputs, sources, sort keys and windows -/

/-- The column of an output, if it is no verbatim expression. -/
def Output.column? : Output → Option Identifier
  | column name _ => some name
  | raw _ _ => none

/-- The table of a source, if it is no verbatim expression. -/
def Source.table? : Source → Option Segment
  | table name _ => some name
  | raw _ _ => none

/-- An output by its column and its effective name. -/
def Output.read (tokens : List Token) : Option (Option Identifier × Text) :=
  match Identifier.read tokens with
  | some (name, rest) =>
    match readAlias rest with
    | some (shown, []) => some (some name, shown.elim name.text Segment.text)
    | _ => none
  | none => none

theorem Output.read_tokens {o : Output} (h : o.isRaw = false) :
    Output.read o.tokens = some (o.column?, o.effectiveName) := by
  cases o with
  | raw expression aliasName => simp [isRaw] at h
  | column name aliasName =>
    have hname := name.read_tokens [] (by simp)
    rw [List.append_nil] at hname
    have hplain : Output.read name.tokens = some (some name, name.text) := by
      rw [Output.read, hname]
      rfl
    cases aliasName with
    | none => exact hplain
    | some aliasName =>
      rw [tokens, effectiveName]
      split
      · next heq => rw [hplain, heq, column?]
      · have hcolumn := name.read_tokens [blank, keyword "AS", blank, aliasName.token] (by simp)
        rw [Output.read, hcolumn]
        simp only
        rw [readAlias_name]
        rfl

/-- A source by its table and its effective name, and the tokens after it. -/
def Source.read : List Token → Option ((Option Segment × Segment) × List Token)
  | .name t :: rest =>
    (Segment.read t).bind fun table =>
      (readAlias rest).map fun (shown, more) => ((some table, shown.getD table), more)
  | _ => none

/-- A source is read back in front of anything but an alias. -/
theorem Source.read_tokens {t : Source} (h : t.isRaw = false) (rest : List Token)
    (hr : [blank, keyword "AS", blank].isPrefixOf? rest = none) :
    Source.read (t.tokens ++ rest) = some ((t.table?, t.effectiveName), rest) := by
  cases t with
  | raw expression aliasName => simp [isRaw] at h
  | table name aliasName =>
    have hplain : Source.read (name.token :: rest) = some ((some name, name), rest) := by
      simp [Source.read, Segment.token, name.read_text, readAlias, hr]
    cases aliasName with
    | none => exact hplain
    | some aliasName =>
      rw [tokens, effectiveName]
      split
      · next heq =>
        rw [heq]
        exact hplain
      · change Source.read (.name name.text :: _) = _
        rw [Source.read, name.read_text, Option.bind_some]
        change (readAlias (blank :: keyword "AS" :: blank :: aliasName.token :: rest)).map _ = _
        rw [readAlias_name]
        rfl

/-- A sort key. -/
def SortKey.read (tokens : List Token) : Option SortKey :=
  match Identifier.read tokens with
  | some (name, rest) =>
    [Direction.ascending, Direction.descending].findSome? fun direction =>
      if rest = [blank, .word direction.text] then some ⟨.column name, direction⟩ else none
  | none => none

theorem SortKey.read_tokens {key : SortKey} (h : key.isRaw = false) :
    SortKey.read key.tokens = some key := by
  obtain ⟨expression, direction⟩ := key
  cases expression with
  | raw expression => simp [isRaw] at h
  | column name =>
    have hname := name.read_tokens [blank, .word direction.text] (by simp)
    change SortKey.read (name.tokens ++ [blank, .word direction.text]) = _
    rw [SortKey.read, hname]
    cases direction <;> rfl

/-- A window. -/
def Window.read : List Token → Option Window
  | [.word count] => (Numeral.value? count).map fun n => ⟨n, none⟩
  | [.word offset, .mark ',', .word count] => do
    let skipped ← Numeral.value? offset
    let n ← Numeral.value? count
    return ⟨n, some skipped⟩
  | _ => none

theorem Window.read_tokens (w : Window) : Window.read w.tokens = some w := by
  obtain ⟨count, offset⟩ := w
  cases offset <;> simp [tokens, Window.read, Numeral.value?_ofNat]

end SqlSelect
