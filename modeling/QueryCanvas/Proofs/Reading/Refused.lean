import QueryCanvas.Proofs.Reading.Clauses

/-!
# Why no canvas is read off a query

Reading a canvas off a query fails only at something of the query that a canvas cannot draw.  What
is said of a text for a block that is gone is said of no text that is read.
-/

set_option autoImplicit false

namespace QueryCanvas.Sql

open Drafting

variable {α β γ : Type}

/-! ## Results that are there or refused -/

/-- What is said of a text if the block that it is for is gone. -/
def goneBlock : String := "editing a context that no longer exists"

/-- Something is named that a query can hold: it is not said that a block is gone. -/
def OfQuery (construct : String) : Prop := (construct == goneBlock) = false

namespace OfQuery

theorem ne {construct : String} (h : OfQuery construct) : construct ≠ goneBlock :=
  ne_of_beq_false h

theorem front {w : String} (h : w.toList.isPrefixOf goneBlock.toList = false) (s : String) :
    OfQuery (w ++ s) := by
  refine beq_false_of_ne fun heq => ?_
  have hfront : w.toList <+: goneBlock.toList := by
    rw [← heq, String.toList_append]
    exact List.prefix_append _ _
  rw [List.isPrefixOf_iff_prefix.2 hfront] at h
  cases h

theorem back {w : String} (h : w.toList.isSuffixOf goneBlock.toList = false) (s : String) :
    OfQuery (s ++ w) := by
  refine beq_false_of_ne fun heq => ?_
  have hback : w.toList <:+ goneBlock.toList := by
    rw [← heq, String.toList_append]
    exact List.suffix_append _ _
  rw [List.isSuffixOf_iff_suffix.2 hback] at h
  cases h

theorem construct : ∀ form : BodyForm, OfQuery form.construct
  | .enclosed => rfl
  | .rows => rfl
  | .combined .union => rfl
  | .combined .except => rfl
  | .combined .intersect => rfl

end OfQuery

/-- The result is there, or something of the query is refused that a canvas cannot draw. -/
def GivenOrRefused (r : Except ReadFault α) : Prop :=
  ∀ e, r = .error e → ∃ construct, e = .unsupported construct ∧ OfQuery construct

namespace GivenOrRefused

theorem ok (a : α) : GivenOrRefused (.ok a : Except ReadFault α) := nofun

theorem unsupported {construct : String} (h : OfQuery construct) :
    GivenOrRefused (.error (.unsupported construct) : Except ReadFault α) := by
  rintro _ ⟨⟩
  exact ⟨construct, rfl, h⟩

theorem bind {r : Except ReadFault α} {f : α → Except ReadFault β} (hr : GivenOrRefused r)
    (hf : ∀ a, GivenOrRefused (f a)) : GivenOrRefused (r >>= f) := by
  cases r with
  | ok a => exact hf a
  | error e =>
    rintro _ ⟨⟩
    exact hr e rfl

theorem mapM {f : α → Except ReadFault β} (hf : ∀ a, GivenOrRefused (f a)) (l : List α) :
    GivenOrRefused (l.mapM f) := by
  induction l with
  | nil => exact ok []
  | cons a l ih =>
    rw [List.mapM_cons]
    exact bind (hf a) fun _ => bind ih fun _ => ok _

end GivenOrRefused

/-- Whatever the counter, the reading succeeds or refuses something. -/
def Reading.Refuses (m : Reading α) : Prop := ∀ n, GivenOrRefused (m.run n).1

/-- Whatever the counter and the draft, the step succeeds or refuses something. -/
def Drafting.Refuses (m : Drafting α) : Prop := ∀ d, Reading.Refuses (m.run d)

namespace Reading.Refuses

theorem pure (a : α) : Refuses (pure a) := fun _ => .ok a

theorem refuse {construct : String} (h : OfQuery construct) :
    Refuses (Sql.refuse construct : Reading α) :=
  fun _ => .unsupported h

theorem bind {m : Reading α} {f : α → Reading β} (hm : Refuses m) (hf : ∀ a, Refuses (f a)) :
    Refuses (m >>= f) := by
  intro n
  have hstep := hm n
  rw [Reads.run_bind]
  revert hstep
  rcases m.run n with ⟨e | a, n₁⟩
  · rintro hstep _ ⟨⟩
    exact hstep e rfl
  · exact fun _ => hf a n₁

theorem mint : Refuses (Fresh.mint : Reading EntityId) := fun _ => .ok _

theorem guard {c : Prop} [Decidable c] {construct : String} {k : Unit → Reading α}
    (h : OfQuery construct) (hk : Refuses (k ())) :
    Refuses (if c then Sql.refuse construct >>= k else k ()) := by
  split
  · exact bind (refuse h) fun _ => hk
  · exact hk

end Reading.Refuses

namespace Drafting.Refuses

theorem pure (a : α) : Refuses (pure a) := fun _ => .pure _

theorem refuse {construct : String} (h : OfQuery construct) :
    Refuses (Sql.refuse construct : Drafting α) :=
  fun _ _ => .unsupported h

theorem bind {m : Drafting α} {f : α → Drafting β} (hm : Refuses m) (hf : ∀ a, Refuses (f a)) :
    Refuses (m >>= f) :=
  fun d => Reading.Refuses.bind (f := fun p : α × Draft => (f p.1).run p.2) (hm d)
    fun p => hf p.1 p.2

theorem map {m : Drafting α} {f : α → β} (hm : Refuses m) : Refuses (f <$> m) :=
  bind (f := fun a => Pure.pure (f a)) hm fun _ => pure _

theorem guard {c : Prop} [Decidable c] {construct : String} {k : Unit → Drafting α}
    (h : OfQuery construct) (hk : Refuses (k ())) :
    Refuses (if c then Sql.refuse construct >>= k else k ()) := by
  split
  · exact bind (refuse h) fun _ => hk
  · exact hk

theorem mint : Refuses Drafting.mint := fun _ _ => .ok _

theorem get : Refuses (MonadState.get : Drafting Draft) := fun _ => .pure _

theorem update (f : Draft → Draft) : Refuses (modify f) := fun _ => .pure _

theorem edit (f : Block → Block) : Refuses (Drafting.edit f) := update _

theorem ask {f : Draft → Except ReadFault α} (hf : ∀ d, GivenOrRefused (f d)) :
    Refuses (Drafting.ask f) := by
  refine bind get fun d => ?_
  have hanswer := hf d
  split
  · exact pure _
  · rename_i e he
    obtain ⟨construct, rfl, hconstruct⟩ := hanswer e he
    exact refuse hconstruct

theorem lift {m : Reading α} (hm : Reading.Refuses m) : Refuses (m : Drafting α) :=
  fun _ => hm.bind fun _ => .pure _

theorem forM {step : γ → Drafting Unit} (hstep : ∀ c, Refuses (step c)) (l : List γ) :
    Refuses (l.forM step) := by
  induction l with
  | nil => exact pure ()
  | cons c l ih => exact bind (hstep c) fun _ => ih

end Drafting.Refuses

/-! ## Names, aggregates and values -/

theorem joinSide_refuses (e : Expr) (d : Draft) : GivenOrRefused (joinSide e d) := by
  unfold joinSide
  split
  · split
    · exact .ok _
    · exact .unsupported (.front rfl _)
  · exact .unsupported rfl

theorem selectionOwner_refuses (c : ColumnName) (d : Draft) :
    GivenOrRefused (selectionOwner c d) := by
  unfold selectionOwner
  split
  · split
    · exact .ok _
    · exact .unsupported rfl
    · exact .unsupported (.front rfl _)
  · split
    · exact .ok _
    · exact .unsupported (.front rfl _)

theorem aggregate_refuses (d : Draft) (function : List Name) (arguments : Arguments)
    (tail : CallTail) : GivenOrRefused (d.aggregate? function arguments tail) := by
  have hargument : ∀ a, GivenOrRefused (d.argumentText a) := by
    intro a
    cases a with
    | other text => exact .unsupported rfl
    | _ => exact .ok _
  unfold Draft.aggregate?
  dsimp only
  cases AggregateFunction.ofName? (((function.getLast?).map (·.value)).getD "") with
  | none => exact .ok _
  | some kind =>
    dsimp only
    split
    · exact .unsupported rfl
    split
    · exact .unsupported rfl
    split
    · exact .unsupported rfl
    split
    · split
      · exact .unsupported rfl
      · exact .bind (.mapM hargument _) fun _ => .ok _
    · exact .unsupported (.back rfl _)

theorem sortColumn_refuses (e : Expr) (d : Draft) : GivenOrRefused (sortColumn e d) := by
  unfold sortColumn
  extract_lets other
  have hother : GivenOrRefused other := by
    unfold other
    split
    · exact .ok _
    · exact .unsupported rfl
  split
  · split
    · exact .ok _
    · exact hother
  · refine .bind (aggregate_refuses d _ _ _) fun a => ?_
    split
    · exact .ok _
    · exact .unsupported rfl
  · exact hother

theorem literal_refuses (e : Expr) : GivenOrRefused e.literal := by
  unfold Expr.literal
  split
  · exact .ok _
  · exact .ok _
  · exact .ok _
  · exact .unsupported rfl
  · exact .unsupported rfl

theorem limit_refuses (e : Expr) : GivenOrRefused e.limit := by
  unfold Expr.limit
  split
  · dsimp only
    split
    · exact .ok _
    · exact .unsupported (.front rfl _)
  · split
    · exact .ok _
    · exact .unsupported rfl
  · exact .unsupported rfl

/-! ## Steps -/

open Drafting (Refuses)

variable {s : Scope}

theorem readTable_refuses (name : List Name) (named : Option Alias) :
    Refuses (readTable s name named) :=
  .bind .get fun _ => .guard (.back rfl _) <|
    .bind .mint fun _ => .guard rfl <| .bind (.update _) fun _ => .pure _

theorem readEquality_refuses (joined : EntityId) (kind : JoinKind) (e : Expr) :
    Refuses (readEquality joined kind e) := by
  unfold readEquality
  split
  · refine .bind (.ask (joinSide_refuses _)) fun _ => .bind (.ask (joinSide_refuses _)) fun _ => ?_
    exact .guard rfl <| .guard rfl <| .bind .get fun _ => .guard rfl <| .bind .mint fun _ => .edit _
  · exact .refuse rfl

theorem readConstraint_refuses (joined : EntityId) (kind : JoinKind) (constraint : Constraint) :
    Refuses (readConstraint joined kind constraint) := by
  cases constraint with
  | on condition =>
    have hstep (c : Expr × Connector) := readEquality_refuses joined kind c.1
    exact .guard rfl (.forM hstep _)
  | none => exact .pure _
  | _ => exact .refuse rfl

theorem readColumn_refuses (e : Expr) (named : Option Name) : Refuses (readColumn e named) := by
  refine .guard rfl ?_
  split
  · exact .refuse rfl
  · exact .bind (.ask (selectionOwner_refuses _)) fun _ => .bind .get fun _ => .edit _

theorem readAllColumns_refuses (table : List Name) : Refuses (readAllColumns table) := by
  refine .bind .get fun _ => ?_
  split
  · exact .bind .get fun _ => .guard (.back rfl _) (.edit _)
  · exact .refuse rfl
  · exact .refuse (.front rfl _)

theorem readAggregate_refuses (function : List Name) (arguments : Arguments) (tail : CallTail)
    (named : Option Name) : Refuses (readAggregate function arguments tail named) := by
  refine .bind (.ask fun d => aggregate_refuses d _ _ _) fun _ => ?_
  split
  · exact .refuse (.front rfl _)
  · exact .bind (.update _) fun _ => .bind .mint fun _ => .edit _

theorem readSubject_refuses (e : Expr) : Refuses (readSubject e) := by
  unfold readSubject
  split
  · exact .bind .get fun _ => .pure _
  · exact .refuse rfl

theorem addFilter_refuses (subject : Expr) (operator : FilterOperator) (value : String)
    (connector : Connector) : Refuses (addFilter subject operator value connector) :=
  .bind (readSubject_refuses subject) fun _ => .bind .mint fun _ => .edit _

theorem addLinkedFilter_refuses (column : String) (operator : FilterOperator) (b : Block)
    (connector : Connector) : Refuses (addLinkedFilter column operator b connector) :=
  .bind .mint fun _ => .bind .mint fun _ => .edit _

theorem readGrouping_refuses (all : Bool) (terms : List Expr) (modifiers : List String) :
    Refuses (readGrouping all terms modifiers) := by
  refine .guard rfl <| .guard rfl <| .forM (fun e => ?_) _
  split
  · exact .refuse rfl
  · exact .bind .get fun _ => .bind .mint fun _ => .edit _

theorem readHaving_refuses (connector : Connector) (e : Expr) :
    Refuses (readHaving connector e) := by
  unfold readHaving
  split
  · split
    · split
      · refine .bind (.ask fun d => aggregate_refuses d _ _ _) fun _ => ?_
        split
        · exact .refuse (.front rfl _)
        · exact .bind .mint fun _ => .edit _
      · exact .refuse rfl
    · exact .refuse (.front rfl _)
  · exact .refuse rfl

theorem readSortTerm_refuses (t : OrderTerm) : Refuses (readSortTerm t) := by
  cases t
  exact .guard rfl <| .bind (.ask (sortColumn_refuses _)) fun _ => .bind .mint fun _ => .edit _

theorem readLimit_refuses (limit : Option Expr) : Refuses (readLimit limit) := by
  cases limit with
  | none => exact .pure _
  | some e => exact .bind (.ask fun _ => limit_refuses e) fun _ => .edit _

theorem refuseExtras_refuses (sx : SelectExtras) : Refuses (refuseExtras sx) := by
  refine .guard rfl <| .guard rfl <| .guard rfl <| .guard rfl <| .guard rfl ?_
  split
  · exact .refuse rfl
  · exact .pure _

/-- All clauses of a select, if its sources, its results and its condition refuse what they do not
draw. -/
theorem readSelect_refuses {items : List SelectItem} {sources : List FromPart}
    {condition : Option Expr} (groupBy : List Expr) (having : Option Expr) (sx : SelectExtras)
    (orderBy : Option (List OrderTerm)) (limit : Option Expr)
    (hsources : Refuses (readSources s sources)) (hitems : Refuses (readItems s items))
    (hcondition : Refuses (readCondition s condition)) :
    Refuses (readSelect s items sources condition groupBy having sx orderBy limit) := by
  have hresults : Refuses (readResults s items) := by
    unfold readResults
    split
    · exact .pure _
    · exact hitems
  refine .bind (refuseExtras_refuses sx) fun _ => .bind hsources fun _ => .bind hresults fun _ => ?_
  refine .bind hcondition fun _ => .bind (readGrouping_refuses _ _ _) fun _ => ?_
  refine .bind (.forM (fun _ => readHaving_refuses _ _) _) fun _ => ?_
  exact .bind (.forM readSortTerm_refuses _) fun _ => readLimit_refuses limit

/-! ## Blocks -/

mutual

theorem readBlock_refuses (s : Scope) (nested : Bool) :
    ∀ q : Query, Reading.Refuses (readBlock s nested q)
  | .mk _ _ (.other form _) _ _ _ => by
    rw [readBlock_other]
    exact .guard rfl <| .guard rfl <| .guard rfl <| .refuse (.construct form)
  | .mk _ _ (.select items sources condition groupBy having sx) orderBy limit _ => by
    have hselect := readSelect_refuses groupBy having sx orderBy limit
      (readSources_refuses s sources) (readItems_refuses s items)
      (readCondition_refuses s condition)
    rw [readBlock_select]
    refine .guard rfl <| .guard rfl <| .guard rfl ?_
    split
    · exact .pure _
    · exact .bind (hselect Draft.empty) fun _ => .pure _

theorem readSources_refuses (s : Scope) : ∀ l : List FromPart, Refuses (readSources s l)
  | [] => .pure _
  | .mk source joins :: rest =>
    .bind (readSource_refuses s source) fun _ =>
      .bind (readJoins_refuses s joins) fun _ => readSources_refuses s rest

theorem readJoins_refuses (s : Scope) : ∀ l : List JoinClause, Refuses (readJoins s l)
  | [] => .pure _
  | .mk _ op source constraint :: rest => by
    have hsource := readSource_refuses s source
    have hrest := readJoins_refuses s rest
    cases op with
    | cross => exact .bind hsource fun _ => hrest
    | kind kind =>
      refine .bind hsource fun joined => ?_
      split
      · exact .bind (.refuse rfl) fun _ => hrest
      · exact .bind (readConstraint_refuses _ kind constraint) fun _ => hrest
    | other text => exact .bind (.refuse rfl) fun _ => hrest

theorem readSource_refuses (s : Scope) : ∀ source : Source, Refuses (readSource s source)
  | .table name _ named _ => .guard rfl <| .map (readTable_refuses name named)
  | .derived _ q _ =>
    .guard rfl <| .bind (.lift (readBlock_refuses s true q)) fun _ => .bind .mint fun _ =>
      .guard rfl <| .bind (.update _) fun _ => .pure _
  | .joined _ => .refuse rfl
  | .other _ => .refuse rfl

theorem readItems_refuses (s : Scope) : ∀ l : List SelectItem, Refuses (readItems s l)
  | [] => .pure _
  | .wildcard _ :: _ => .refuse rfl
  | .tableWildcard table _ :: rest =>
    .bind (readAllColumns_refuses table) fun _ => readItems_refuses s rest
  | .expr e named :: rest => by
    have hrest := readItems_refuses s rest
    cases e with
    | column parts => exact .bind (readColumn_refuses _ named) fun _ => hrest
    | call name parameters arguments tail =>
      exact .bind (readAggregate_refuses name arguments tail named) fun _ => hrest
    | subquery q =>
      refine .bind (.lift (readBlock_refuses s true q)) fun _ => .bind .mint fun _ => ?_
      exact .bind (.update _) fun _ => .bind (.edit _) fun _ => hrest
    | _ => exact .bind (.refuse rfl) fun _ => hrest

theorem readCondition_refuses (s : Scope) : ∀ condition, Refuses (readCondition s condition)
  | none => .pure _
  | some e => readFilters_refuses s .and e

theorem readFilters_refuses (s : Scope) :
    ∀ (last : Connector) (e : Expr), Refuses (readFilters s last e)
  | last, .binary left op right => by
    cases op with
    | and =>
      exact .bind (readFilters_refuses s .and left) fun _ => readFilters_refuses s last right
    | or =>
      exact .bind (readFilters_refuses s .or left) fun _ => readFilters_refuses s last right
    | compare c =>
      cases right with
      | subquery q =>
        exact .bind (readSubject_refuses left) fun _ =>
          .bind (.lift (readBlock_refuses s true q)) fun _ => addLinkedFilter_refuses _ _ _ _
      | _ => exact .bind (.ask fun _ => literal_refuses _) fun _ => addFilter_refuses _ _ _ _
    | other text => cases right <;> exact .refuse (.front rfl _)
  | _, .inQuery subject _ q =>
    .bind (readSubject_refuses subject) fun _ =>
      .bind (.lift (readBlock_refuses s true q)) fun _ => addLinkedFilter_refuses _ _ _ _
  | _, .like _ _ _ _ pattern _ =>
    .guard (by split <;> rfl) <|
      .bind (.ask fun _ => literal_refuses pattern) fun _ => addFilter_refuses _ _ _ _
  | _, .test _ _ => addFilter_refuses _ _ _ _
  | _, .inList _ _ _ => addFilter_refuses _ _ _ _
  | _, .between _ _ _ _ => addFilter_refuses _ _ _ _
  | _, .column _ | _, .number _ _ | _, .text _ | _, .null | _, .nested _ | _, .subquery _
  | _, .signed _ _ | _, .call _ _ _ _ | _, .other _ => .refuse rfl

end

/-! ## Canvases -/

theorem readCtes_refuses (catalog : Catalog) :
    ∀ (parts : List CtePart) (known : List Cte), Reading.Refuses (readCtes catalog known parts)
  | [], _ => .pure _
  | .mk _ _ q _ :: rest, _ =>
    .guard rfl <| .guard (.back rfl _) <|
      .bind (readBlock_refuses _ true q) fun _ => .bind .mint fun _ =>
        readCtes_refuses catalog rest _

theorem readCanvas_refuses (catalog : Catalog) (q : Query) :
    Reading.Refuses (readCanvas catalog q) := by
  cases q
  exact .guard rfl <| .bind (readCtes_refuses catalog _ []) fun _ =>
    .bind (readBlock_refuses _ false _) fun _ => .pure _

/-! ## Texts -/

theorem parse_ne_goneBlock (d : Dialect) (text : String) :
    Query.parse d text ≠ .error (.unsupported goneBlock) := by
  unfold Query.parse
  split <;> rintro ⟨⟩

/-- What is read off the query of a text is not missing because a block is gone. -/
theorem readQuery_bind_ne_goneBlock {f : Query → Reading α} (hf : ∀ q, (f q).Refuses) (d : Dialect)
    (text : String) (n : Nat) :
    ((readQuery d text >>= f).run n).1 ≠ .error (.unsupported goneBlock) := by
  unfold readQuery
  cases hparse : Query.parse d text with
  | ok q =>
    intro hgone
    obtain ⟨_, ⟨⟩, hne⟩ := hf q n _ hgone
    exact hne.ne rfl
  | error e =>
    intro hgone
    cases hgone
    exact parse_ne_goneBlock d text hparse

theorem readText_ne_goneBlock (d : Dialect) (catalog : Catalog) (text : String) (n : Nat) :
    ((readText d catalog text).run n).1 ≠ .error (.unsupported goneBlock) :=
  readQuery_bind_ne_goneBlock (readCanvas_refuses catalog) d text n

theorem readNestedText_ne_goneBlock (d : Dialect) (s : Scope) (text : String) (n : Nat) :
    ((readNestedText d s text).run n).1 ≠ .error (.unsupported goneBlock) :=
  readQuery_bind_ne_goneBlock (readBlock_refuses s true) d text n

end QueryCanvas.Sql
