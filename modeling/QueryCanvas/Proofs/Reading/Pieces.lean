import QueryCanvas.Proofs.Reading.Sources

/-!
# The pieces of a query on a canvas

The texts of a block are put together from pieces of the clauses that it depicts: columns, which are
written with the names of their tables, and what is kept as it stands in the query.  Between the
pieces stand words, blanks, commas and parentheses.  What a text says of names or parameters is so
what its pieces say.
-/

set_option autoImplicit false

namespace QueryCanvas

open Sql

/-! ## The texts of a block -/

/-- The texts of a filter that are written as they are.  The value of a comparison is written as a
literal, so it refers to nothing. -/
def Filter.texts (f : Filter) : List String :=
  f.column :: if f.operator.isList || f.operator.isRange then f.operand.value?.toList else []

/-- The texts of a block in which columns can be referred to. -/
def Block.texts (b : Block) : List String :=
  b.filters.flatMap Filter.texts ++ b.groupBy.map (·.column)
    ++ b.having.flatMap (fun h => [h.column, h.value]) ++ b.orderBy.map (·.column)
    ++ b.aggregates.map (·.expression)

namespace Sql

/-! ## Pieces of a query -/

/-- A piece of a query that gets on a canvas. -/
inductive Piece where
  /-- A column, which is written with the name of its table. -/
  | column (c : ColumnName)
  /-- Text that is written as it stands. -/
  | kept (text : String)
deriving DecidableEq, Repr

/-- An expression that is neither an operator nor in parentheses. -/
def Expr.piece (e : Expr) : Piece :=
  match e.columnName? with
  | some c => .column c
  | none => .kept e.printed

/-- The pieces of an argument of an aggregate. -/
def Expr.pieces : Expr → List Piece
  | .binary left op right => left.pieces ++ .kept op.text :: right.pieces
  | .nested e => e.pieces
  | e => [e.piece]

/-- The piece that a column is. -/
def Expr.columnPieces (e : Expr) : List Piece := e.columnName?.toList.map .column

/-- The pieces of a condition on rows. -/
def Expr.conditionPieces : Expr → List Piece
  | .binary subject _ _ => subject.columnPieces
  | .like _ _ _ subject _ _ => subject.columnPieces
  | .test subject _ => subject.columnPieces
  | .inList subject _ items => subject.columnPieces ++ items.map fun e => .kept e.printed
  | .inQuery subject _ _ => subject.columnPieces
  | .between subject _ low high =>
    subject.columnPieces ++ [.kept low.printed, .kept high.printed]
  | _ => []

def Argument.pieces : Argument → List Piece
  | .expr e => e.pieces
  | _ => []

def Arguments.pieces : Arguments → List Piece
  | .list _ items _ => items.flatMap Argument.pieces
  | _ => []

/-- The pieces of a condition on groups. -/
def Expr.havingPieces : Expr → List Piece
  | .binary (.call _ _ arguments _) _ right => arguments.pieces ++ [.kept right.printed]
  | _ => []

/-- The pieces of a term of sorting; an alias of a result is no column. -/
def OrderTerm.pieces (aliases : List String) : OrderTerm → List Piece
  | .mk (.call _ _ arguments _) _ _ _ => arguments.pieces
  | .mk (.column [n]) _ _ _ =>
    if aliases.any (Text.sameName · n.value) then [] else (Expr.column [n]).columnPieces
  | .mk e _ _ _ => e.columnPieces

/-- The pieces of a result. -/
def SelectItem.pieces : SelectItem → List Piece
  | .expr (.call _ _ arguments _) _ => arguments.pieces
  | _ => []

namespace Clauses

/-- The pieces of all clauses, in the order in which they are on the canvas. -/
def pieces (k : Clauses) : List Piece :=
  k.conditions.flatMap (·.1.conditionPieces) ++ k.groupBy.flatMap Expr.columnPieces
    ++ k.havings.flatMap (·.1.havingPieces)
    ++ (k.orderBy.getD []).flatMap (OrderTerm.pieces (resultAliases k.items))
    ++ k.items.flatMap SelectItem.pieces

end Clauses

/-! ## Texts that are put together -/

/-- The piece as it is written on a canvas. -/
def Draft.pieceText (d : Draft) : Piece → String
  | .column c => d.columnText c
  | .kept text => text

/-- The characters that stand between pieces. -/
def isDivider (c : Char) : Bool := c == ' ' || c == ',' || c == '(' || c == ')'

/-- The text is put together from these pieces. -/
inductive Draft.Composed (d : Draft) : String → List Piece → Prop
  | piece (p : Piece) : Composed d (d.pieceText p) [p]
  /-- The alias of a result stands for no piece. -/
  | name (n : String) : Composed d (quoteName n) []
  | word {w : String} (hw : w.toList.all Parameter.isNamePart) : Composed d w []
  | star : Composed d "*" []
  | append {x y : String} {ps ps' : List Piece} {c : Char} (hc : isDivider c)
      (hx : Composed d x ps) (hy : Composed d y ps') :
      Composed d (x ++ String.singleton c ++ y) (ps ++ ps')

/-- The texts are put together from these pieces, one text after the other. -/
inductive Draft.ComposedAll (d : Draft) : List String → List Piece → Prop
  | nil : ComposedAll d [] []
  | cons {text : String} {texts : List String} {ps ps' : List Piece} (h : d.Composed text ps)
      (hrest : ComposedAll d texts ps') : ComposedAll d (text :: texts) (ps ++ ps')

variable {d : Draft}

namespace Draft.Composed

variable {x y : String} {ps ps' : List Piece}

theorem column (c : ColumnName) : d.Composed (d.columnText c) [.column c] := .piece (.column c)

theorem kept (text : String) : d.Composed text [.kept text] := .piece (.kept text)

theorem empty : d.Composed "" [] := .word rfl

theorem parenthesized (h : d.Composed x ps) : d.Composed ("(" ++ x ++ ")") ps := by
  have hall := (empty (d := d)).append (c := '(') rfl (h.append (c := ')') rfl empty)
  simpa [String.append_assoc] using hall

end Draft.Composed

theorem Draft.composed_expression (d : Draft) : ∀ e : Expr,
    d.Composed (d.expressionText e) e.pieces
  | .binary left op right => by
    have hop := Composed.kept (d := d) op.text
    have hall := ((composed_expression d left).append (c := ' ') rfl hop).append (c := ' ') rfl
      (composed_expression d right)
    rw [Draft.expressionText, Expr.pieces]
    simpa [List.append_assoc] using hall
  | .nested e => by
    rw [Draft.expressionText]
    exact (composed_expression d e).parenthesized
  | .column parts => by
    rw [Draft.expressionText, Expr.pieces, Expr.piece]
    · cases (Expr.column parts).columnName? with
      | some c => exact .column c
      | none => exact .kept _
    all_goals simp
  | .number _ _ | .text _ | .null | .subquery _ | .signed _ _ | .like _ _ _ _ _ _ | .test _ _
  | .inList _ _ _ | .inQuery _ _ _ | .between _ _ _ _ | .call _ _ _ _ | .other _ => .kept _

theorem Draft.composed_argument {a : Argument} {text : String} (h : d.argumentText a = .ok text) :
    d.Composed text a.pieces := by
  cases a with
  | wildcard =>
    cases h
    exact .star
  | expr e =>
    cases h
    exact composed_expression d e
  | other text => cases h

/-- A function that succeeds on all members of a list. -/
theorem forall₂_of_mapM {α β : Type} {f : α → Except ReadFault β} {l : List α} :
    ∀ {l' : List β}, l.mapM f = .ok l' → l.Forall₂ (fun a b => f a = .ok b) l' := by
  induction l with
  | nil =>
    rintro l' ⟨⟩
    exact .nil
  | cons a l ih =>
    intro l' h
    rw [List.mapM_cons] at h
    cases ha : f a with
    | error e =>
      rw [ha] at h
      cases h
    | ok b =>
      cases hl : l.mapM f with
      | error e =>
        rw [ha, hl] at h
        cases h
      | ok bs =>
        rw [ha, hl] at h
        cases h
        exact .cons ha (ih hl)

/-- Texts with commas between them. -/
theorem Draft.composed_commas {α : Type} {f : α → List Piece} {l : List α} {texts : List String}
    (h : l.Forall₂ (fun a text => d.Composed text (f a)) texts) :
    d.Composed (joined ", " texts) (l.flatMap f) := by
  induction h with
  | nil => exact .empty
  | @cons a text l texts hfirst hrest ih =>
    cases hrest with
    | nil => simpa [joined] using hfirst
    | @cons _ next _ rest =>
      have hrest := (Composed.empty (d := d)).append (c := ' ') rfl ih
      have hboth := hfirst.append (c := ',') rfl hrest
      have htext : joined ", " (text :: next :: rest) = text ++ String.singleton ',' ++
          ("" ++ String.singleton ' ' ++ joined ", " (next :: rest)) := by
        rw [joined, String.intercalate_cons_cons, ← String.toList_inj]
        simp [joined]
      rw [htext]
      exact hboth

/-- What the argument of an aggregate is. -/
theorem Draft.aggregate_eq_some {function : List Name} {arguments : Arguments} {tail : CallTail}
    {kind : AggregateFunction} {expression : String}
    (h : d.aggregate? function arguments tail = .ok (some (kind, expression))) :
    ∃ distinct items clauses texts, arguments = .list distinct items clauses ∧
      items.mapM d.argumentText = .ok texts ∧
      expression = if distinct = some true then "DISTINCT " ++ joined ", " texts
        else joined ", " texts := by
  unfold Draft.aggregate? at h
  dsimp only at h
  split at h
  · cases h
  · split at h
    · cases h
    · split at h
      · cases h
      · split at h
        · cases h
        · split at h
          · rename_i distinct items clauses
            split at h
            · cases h
            · cases htexts : items.mapM d.argumentText with
              | error e =>
                rw [htexts] at h
                cases h
              | ok texts =>
                rw [htexts] at h
                cases h
                exact ⟨distinct, items, clauses, texts, rfl, htexts, rfl⟩
          · cases h

/-- The argument of an aggregate. -/
theorem Draft.composed_aggregate {function : List Name} {arguments : Arguments} {tail : CallTail}
    {kind : AggregateFunction} {expression : String}
    (h : d.aggregate? function arguments tail = .ok (some (kind, expression))) :
    d.Composed expression arguments.pieces := by
  obtain ⟨distinct, items, clauses, texts, rfl, htexts, rfl⟩ := aggregate_eq_some h
  have hitems : d.Composed (joined ", " texts) (items.flatMap Argument.pieces) :=
    composed_commas ((forall₂_of_mapM htexts).imp fun _ _ htext => composed_argument htext)
  split
  · have htext : "DISTINCT " = "DISTINCT" ++ String.singleton ' ' := rfl
    rw [htext]
    exact (Composed.word (w := "DISTINCT") (by decide)).append (c := ' ') rfl hitems
  · exact hitems

/-- Expressions as they are printed, with commas between them. -/
theorem Draft.composed_printed (d : Draft) (items : List Expr) :
    d.Composed (joined ", " (items.map Expr.printed)) (items.map fun e => .kept e.printed) := by
  have hitems : items.Forall₂ (fun e text => d.Composed text [.kept e.printed])
      (items.map Expr.printed) := by
    rw [List.forall₂_map_right_iff, List.forall₂_same]
    exact fun e _ => .kept e.printed
  have hcommas := composed_commas hitems
  rwa [← List.map_eq_flatMap] at hcommas

/-- Two bounds. -/
theorem Draft.composed_range (d : Draft) (low high : Expr) :
    d.Composed (low.printed ++ " AND " ++ high.printed)
      [.kept low.printed, .kept high.printed] := by
  have hword : d.Composed "AND" [] := .word (by decide)
  have hleft := (Composed.kept (d := d) low.printed).append (c := ' ') rfl hword
  have hall := hleft.append (c := ' ') rfl (Composed.kept (d := d) high.printed)
  have htext : " AND " = String.singleton ' ' ++ "AND" ++ String.singleton ' ' := rfl
  rw [htext]
  simpa only [String.append_assoc, List.append_nil, List.singleton_append] using hall

/-- An aggregate function that is applied to a text. -/
theorem Draft.composed_call (kind : AggregateFunction) {expression : String} {ps : List Piece}
    (h : d.Composed expression ps) : d.Composed (kind.sql ++ "(" ++ expression ++ ")") ps := by
  have hkind : d.Composed kind.sql [] := .word (by cases kind <;> decide)
  have hall := hkind.append (c := '(') rfl (h.append (c := ')') rfl .empty)
  simpa [String.append_assoc] using hall

namespace Draft.ComposedAll

variable {texts texts' : List String} {ps ps' : List Piece}

theorem append (h : d.ComposedAll texts ps) (h' : d.ComposedAll texts' ps') :
    d.ComposedAll (texts ++ texts') (ps ++ ps') := by
  induction h with
  | nil => exact h'
  | cons hfirst _ ih =>
    rw [List.append_assoc]
    exact .cons hfirst ih

theorem single {text : String} (h : d.Composed text ps) : d.ComposedAll [text] ps := by
  have hall := ComposedAll.cons h .nil
  rwa [List.append_nil] at hall

theorem pair {text text' : String} (h : d.Composed text ps) (h' : d.Composed text' ps') :
    d.ComposedAll [text, text'] (ps ++ ps') := .cons h (single h')

/-- Members of two lists that are related one by one. -/
theorem flatMap {α β : Type} {R : α → β → Prop} {l : List α} {l' : List β} {f : α → List Piece}
    {g : β → List String} (h : l.Forall₂ R l')
    (hcomposed : ∀ a b, R a b → d.ComposedAll (g b) (f a)) :
    d.ComposedAll (l'.flatMap g) (l.flatMap f) := by
  induction h with
  | nil => exact .nil
  | cons hfirst _ ih => exact (hcomposed _ _ hfirst).append ih

/-- Members of two lists that are related one by one, with one text each. -/
theorem map {α β : Type} {R : α → β → Prop} {l : List α} {l' : List β} {f : α → List Piece}
    {g : β → String} (h : l.Forall₂ R l') (hcomposed : ∀ a b, R a b → d.Composed (g b) (f a)) :
    d.ComposedAll (l'.map g) (l.flatMap f) := by
  rw [List.map_eq_flatMap]
  exact flatMap h fun a b hab => single (hcomposed a b hab)

end Draft.ComposedAll

theorem Draft.composed_columnPieces {e : Expr} {c : ColumnName} (h : e.columnName? = some c) :
    d.Composed (d.columnText c) e.columnPieces := by
  rw [Expr.columnPieces, h]
  exact .column c

end Sql

/-! ## The pieces of a block -/

/-- The operators with a single value behind them. -/
def FilterOperator.TakesValue (o : FilterOperator) : Prop :=
  o.isUnary = false ∧ o.isList = false ∧ o.isRange = false

theorem Sql.takesValue_of_filterOperator? {op : Operator} {o : FilterOperator}
    (h : filterOperator? op = some o) : o.TakesValue := by
  cases op with
  | compare c => cases h; cases c <;> exact ⟨rfl, rfl, rfl⟩
  | _ => cases h

theorem takesValue_likeOperator (anyCase negated : Bool) :
    (likeOperator anyCase negated).TakesValue := by
  cases anyCase <;> cases negated <;> exact ⟨rfl, rfl, rfl⟩

variable {d : Draft}

theorem Filter.On.composed {f : Filter} {subject : Expr} (h : f.On d subject) :
    d.Composed f.column subject.columnPieces := by
  obtain ⟨c, hc, hcolumn⟩ := h
  rw [hcolumn]
  exact Draft.composed_columnPieces hc

/-- A filter whose value is written as a literal, or that has none. -/
theorem Filter.On.composed_column {f : Filter} {subject : Expr} (h : f.On d subject)
    (hvalue : f.operator.isList || f.operator.isRange → f.operand.value? = none) :
    d.ComposedAll f.texts subject.columnPieces := by
  unfold Filter.texts
  split
  · rename_i hoperator
    rw [hvalue hoperator]
    exact .single h.composed
  · exact .single h.composed

/-- A filter with a list or a range. -/
theorem Filter.On.composed_value {f : Filter} {subject : Expr} {value : String} {ps : List Piece}
    (h : f.On d subject) (hoperator : f.operator.isList || f.operator.isRange)
    (hoperand : f.operand = .value value) (hvalue : d.Composed value ps) :
    d.ComposedAll f.texts (subject.columnPieces ++ ps) := by
  rw [Filter.texts, if_pos hoperator, hoperand]
  exact .pair h.composed hvalue

theorem FilterOperator.TakesValue.single {o : FilterOperator} (h : o.TakesValue) :
    (o.isList || o.isRange) = false := by
  rw [h.2.1, h.2.2]
  rfl

/-- The filter of a comparison has its operator, whatever it compares with. -/
theorem Filter.Depicts.of_binary {f : Filter} {subject right : Expr} {op : Operator}
    (h : f.Depicts d (.binary subject op right)) :
    f.On d subject ∧ filterOperator? op = some f.operator := by
  cases right <;> exact ⟨h.1, h.2.1⟩

/-- The texts of a filter are put together from the pieces of its condition. -/
theorem Filter.Depicts.composed {f : Filter} : ∀ {e : Expr}, f.Depicts d e →
    d.ComposedAll f.texts e.conditionPieces
  | .binary _ _ _, h => by
    refine h.of_binary.1.composed_column fun hoperator => ?_
    rw [(takesValue_of_filterOperator? h.of_binary.2).single] at hoperator
    cases hoperator
  | .like anyCase negated _ _ _ _, ⟨hon, hoperator, _⟩ => by
    refine hon.composed_column fun hlist => ?_
    rw [hoperator, (takesValue_likeOperator anyCase negated).single] at hlist
    cases hlist
  | .test subject _, ⟨hon, _, hoperand⟩ => by
    cases hvalue : f.operator.isList || f.operator.isRange with
    | true =>
      have hall := hon.composed_value hvalue hoperand .empty
      rwa [List.append_nil] at hall
    | false => exact hon.composed_column fun hlist => absurd (hvalue.symm.trans hlist) nofun
  | .inList subject negated items, ⟨hon, hoperator, hoperand⟩ => by
    have hlist : f.operator.isList || f.operator.isRange := by
      rw [hoperator]
      cases negated <;> rfl
    exact hon.composed_value hlist hoperand (d.composed_printed items)
  | .inQuery _ _ _, ⟨hon, _, id, hoperand⟩ => by
    refine hon.composed_column fun _ => ?_
    rw [hoperand]
    rfl
  | .between subject negated low high, ⟨hon, hoperator, hoperand⟩ => by
    have hrange : f.operator.isList || f.operator.isRange := by
      rw [hoperator]
      cases negated <;> rfl
    exact hon.composed_value hrange hoperand (d.composed_range low high)

theorem Grouping.Depicts.composed {g : Grouping} {e : Expr} (h : g.Depicts d e) :
    d.Composed g.column e.columnPieces := by
  obtain ⟨c, hc, hcolumn⟩ := h
  rw [hcolumn]
  exact Draft.composed_columnPieces hc

theorem Having.Depicts.composed {k : Having} {e : Expr} (h : k.Depicts d e) :
    d.ComposedAll [k.column, k.value] e.havingPieces := by
  unfold Having.Depicts at h
  split at h
  · obtain ⟨hcall, -, hvalue⟩ := h
    rw [Expr.havingPieces, hvalue]
    exact .pair (Draft.composed_aggregate hcall) (.kept _)
  · exact h.elim

/-- A column by which rows are sorted. -/
theorem composed_sortColumn {e : Expr} {column : String}
    (h : (match e.columnName? with
      | some c => Except.ok (d.columnText c)
      | none => .error (ReadFault.unsupported "ORDER BY expression")) = .ok column) :
    d.Composed column e.columnPieces := by
  cases hc : e.columnName? with
  | none =>
    rw [hc] at h
    cases h
  | some c =>
    rw [hc] at h
    cases h
    exact Draft.composed_columnPieces hc

theorem SortTerm.Depicts.composed {o : SortTerm} {aliases : List String} {t : OrderTerm}
    (h : o.Depicts d aliases t) : d.Composed o.column (t.pieces aliases) := by
  obtain ⟨e, descending, nullsFirst, marks⟩ := t
  obtain ⟨hcolumn, -⟩ := h
  have hsame : d.SameNames { d with aliases } := ⟨rfl, rfl, rfl⟩
  unfold sortColumn at hcolumn
  generalize o.column = column at hcolumn ⊢
  match e with
  | .call function parameters arguments tail =>
    dsimp only at hcolumn
    rw [hsame.aggregate] at hcolumn
    cases hcall : d.aggregate? function arguments tail with
    | error e =>
      rw [hcall] at hcolumn
      cases hcolumn
    | ok called =>
      rw [hcall] at hcolumn
      cases called with
      | none => cases hcolumn
      | some called =>
        obtain ⟨kind, expression⟩ := called
        cases hcolumn
        exact Draft.composed_call kind (Draft.composed_aggregate hcall)
  | .column [n] =>
    dsimp only at hcolumn
    rw [OrderTerm.pieces]
    split at hcolumn
    · rename_i hany
      cases hcolumn
      rw [if_pos hany]
      exact .name n.value
    · rename_i hany
      rw [if_neg hany]
      exact composed_sortColumn hcolumn
  | .column [] => exact composed_sortColumn hcolumn
  | .column (_ :: _ :: _) => exact composed_sortColumn hcolumn
  | .number _ _ | .text _ | .null | .nested _ | .subquery _ | .signed _ _ | .binary _ _ _
  | .like _ _ _ _ _ _ | .test _ _ | .inList _ _ _ | .inQuery _ _ _ | .between _ _ _ _ | .other _ =>
    exact composed_sortColumn hcolumn

/-- The aggregates among the results are put together from the pieces of their arguments. -/
theorem ResultsDepicted.composed {items : List SelectItem}
    {choices : List (EntityId × List String)} {aggregates : List SelectAggregate}
    (h : ResultsDepicted d items choices aggregates) :
    d.ComposedAll (aggregates.map (·.expression)) (items.flatMap SelectItem.pieces) := by
  induction h with
  | nil => exact .nil
  | star => exact .nil
  | column _ _ _ ih => exact ih
  | all _ _ ih => exact ih
  | scalar _ ih => exact ih
  | aggregate ha _ _ ih => exact .cons (Draft.composed_aggregate ha) ih

/-- **The texts of a block are put together from the pieces of its clauses.** -/
theorem Sql.Clauses.Depicted.composed {s : Scope} {k : Clauses} {b : Block}
    (h : k.Depicted s d b) : d.ComposedAll b.texts k.pieces := by
  obtain ⟨choices, hresults, -⟩ := h.results
  refine .append (.append (.append (.append ?_ ?_) ?_) ?_) ?_
  · exact .flatMap h.filters fun _ _ hf => hf.1.composed
  · exact .map h.groupBy fun _ _ hg => hg.composed
  · exact .flatMap h.having fun _ _ hk => hk.1.composed
  · exact .map h.orderBy fun _ _ ho => ho.composed
  · exact hresults.composed

end QueryCanvas
