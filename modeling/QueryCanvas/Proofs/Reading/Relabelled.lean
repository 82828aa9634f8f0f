import QueryCanvas.Proofs.Reading.Shifted

/-!
# What is read does not depend on the counter

The reading of a query takes the same steps wherever the counter for new identifiers stands.  So a
text that cannot be drawn has the same fault at every time, and a text that can be drawn gives the
same canvas up to the names of the new identifiers.
-/

set_option autoImplicit false

namespace QueryCanvas.Sql

open Drafting

variable {σ : Shift} {s s' : Scope}

/-- The second scope knows the same tables, and its named queries have the names and results of
those of the first one, under other identifiers. -/
structure Scope.Looks (f : EntityId → EntityId) (s s' : Scope) : Prop where
  catalog : s'.catalog = s.catalog
  ctes : s'.ctes.map (fun q => (q.id, q.name, q.block.outputColumns)) =
    s.ctes.map fun q => (f q.id, q.name, q.block.outputColumns)

theorem Scope.looks_relabel (f : EntityId → EntityId) (s : Scope) : s.Looks f (s.relabel f) := by
  refine ⟨rfl, ?_⟩
  rw [relabel, List.map_map]
  exact List.map_congr_left fun q _ => by simp

theorem Scope.looks_self {f : EntityId → EntityId} (h : ∀ q ∈ s.ctes, f q.id = q.id) :
    s.Looks f s :=
  ⟨rfl, List.map_congr_left fun q hq => by rw [h q hq]⟩

/-- Under a name the same is found in both scopes. -/
theorem Scope.Looks.find? {f : EntityId → EntityId} (h : s.Looks f s') (name : String) :
    (s'.ctes.find? (Text.sameName ·.name name)).map
        (fun q => (q.id, q.name, q.block.outputColumns)) =
      (s.ctes.find? (Text.sameName ·.name name)).map
        fun q => (f q.id, q.name, q.block.outputColumns) := by
  have hfound : ∀ (g : Cte → EntityId × String × List String), (∀ q, (g q).2.1 = q.name) →
      ∀ l : List Cte, (l.find? (Text.sameName ·.name name)).map g =
        (l.map g).find? (Text.sameName ·.2.1 name) := fun g hg l => by
    rw [List.find?_map]
    simp only [Function.comp_def, hg]
  rw [hfound _ (fun _ => rfl), hfound _ (fun _ => rfl), h.ctes]

namespace Shift

/-! ## Sources and joins -/

/-- A table is taken as a source, with the names under which it is known. -/
theorem takeTable_relabel {f : EntityId → EntityId} (d : Draft) (named : Option Alias) (t : Table) :
    ({ d.relabel f with
        sources := (d.relabel f).sources
          ++ (named.map fun a => (⟨a.name.value, some (f t.id, t.name)⟩ : SourceName)).toList
          ++ [⟨t.name, some (f t.id, t.name)⟩]
        block := (d.relabel f).block.addTable (t.relabel f) } : Draft) =
      ({ d with
        sources := d.sources
          ++ (named.map fun a => (⟨a.name.value, some (t.id, t.name)⟩ : SourceName)).toList
          ++ [⟨t.name, some (t.id, t.name)⟩]
        block := d.block.addTable t } : Draft).relabel f := by
  cases named <;> simp [Draft.relabel, SourceName.relabel, Block.addTable_relabel]

/-- A nested query is taken as a source. -/
theorem takeNested_relabel {f : EntityId → EntityId} (d : Draft) (aliasName : Option String)
    (derived : Subquery) :
    ({ d.relabel f with
        sources := (d.relabel f).sources
          ++ (aliasName.map fun key => (⟨key, none⟩ : SourceName)).toList
        block := { (d.relabel f).block with
          subqueries := (d.relabel f).block.subqueries ++ [derived.relabel f] } } : Draft) =
      ({ d with
        sources := d.sources ++ (aliasName.map fun key => (⟨key, none⟩ : SourceName)).toList
        block := { d.block with subqueries := d.block.subqueries ++ [derived] } } : Draft).relabel
        f := by
  cases aliasName <;> simp [Draft.relabel, SourceName.relabel, Block.relabel_eq]

theorem leads_readTable (hs : s.Looks σ.rename s') (name : List Name) (named : Option Alias) :
    σ.Leads σ.rename (readTable s name named) (readTable s' name named) := by
  have hfound : (if name.length = 1 then s'.ctes.find? (Text.sameName ·.name (plainPath name))
      else none).map (fun q => (q.id, q.name, q.block.outputColumns)) =
        (if name.length = 1 then s.ctes.find? (Text.sameName ·.name (plainPath name))
          else none).map fun q => (σ.rename q.id, q.name, q.block.outputColumns) := by
    split
    · exact hs.find? _
    · rfl
  unfold readTable
  refine Leads.bind Leads.get fun d => Leads.guard ?_ ?_
  · rw [Draft.relabel_block, Block.tableNamed?_relabel, Option.isSome_map]
  · refine Leads.bind Leads.mint fun id => Leads.guard Iff.rfl ?_
    generalize (if name.length = 1 then s.ctes.find? (Text.sameName ·.name (plainPath name))
      else none) = found at hfound ⊢
    generalize (if name.length = 1 then s'.ctes.find? (Text.sameName ·.name (plainPath name))
      else none) = found' at hfound ⊢
    refine Leads.next (Leads.update fun d => ?_) fun _ => Leads.pure rfl
    cases found with
    | none =>
      rw [Option.map_none, Option.map_eq_none_iff] at hfound
      rw [hfound, hs.catalog]
      exact takeTable_relabel d named (Table.create id _ _ default)
    | some q =>
      obtain ⟨q', rfl, hq⟩ := Option.map_eq_some_iff.1 hfound
      obtain ⟨hid, hq⟩ := Prod.mk.inj hq
      obtain ⟨hname, hcolumns⟩ := Prod.mk.inj hq
      simp only [hid, hname, hcolumns]
      exact takeTable_relabel d named
        { Table.create id q.name q.block.outputColumns default with cte := some q.id }

theorem leads_readEquality (joined : EntityId) (kind : JoinKind) (e : Expr) :
    σ.Leads id (readEquality joined kind e) (readEquality (σ.rename joined) kind e) := by
  unfold readEquality
  split
  · rename_i left right
    refine Leads.bind (Leads.ask (joinSide_relabel σ.injective left)) ?_
    rintro ⟨sourceTable, sourceColumn⟩
    refine Leads.bind (Leads.ask (joinSide_relabel σ.injective right)) ?_
    rintro ⟨targetTable, targetColumn⟩
    refine Leads.guard σ.injective.eq_iff (Leads.guard ?_ ?_)
    · simp only [ne_eq, σ.injective.eq_iff]
    · refine Leads.bind Leads.get fun d => Leads.guard ?_ ?_
      · rw [Draft.relabel_block, Block.canJoin_relabel σ.injective]
      · refine Leads.bind Leads.mint fun id => Leads.edit fun b => ?_
        exact b.addJoin_relabel σ.injective
          { id, sourceTable, sourceColumn, targetTable, targetColumn, kind }
  · exact Leads.refuse _

theorem leads_readConstraint (joined : EntityId) (kind : JoinKind) (constraint : Constraint) :
    σ.Leads id (readConstraint joined kind constraint)
      (readConstraint (σ.rename joined) kind constraint) := by
  unfold readConstraint
  split
  · unfold readJoinCondition
    refine Leads.guard Iff.rfl (Leads.forM (fun c : Expr × Connector => ?_) _)
    exact leads_readEquality joined kind c.1
  · exact Leads.pure rfl
  · exact Leads.refuse _

/-! ## Results -/

theorem leads_readColumn (e : Expr) (named : Option Name) :
    σ.Leads id (readColumn e named) (readColumn e named) := by
  unfold readColumn
  refine Leads.guard Iff.rfl ?_
  cases e.columnName? with
  | none => exact Leads.refuse _
  | some c =>
    refine Leads.bind (Leads.ask (selectionOwner_relabel c)) fun table => ?_
    refine Leads.bind Leads.get fun d => Leads.edit fun b => ?_
    rw [Draft.declared_relabel d σ.injective]
    exact b.updateTable_relabel σ.injective (fun t => t.select_relabel _) table

theorem leads_readAllColumns (table : List Name) :
    σ.Leads id (readAllColumns table) (readAllColumns table) := by
  unfold readAllColumns
  refine Leads.bind Leads.get fun d => ?_
  rw [Draft.source?_relabel]
  rcases d.source? (plainPath table) with _ | ⟨key, _ | ⟨id, name⟩⟩
  · exact Leads.refuse _
  · exact Leads.refuse _
  · refine Leads.bind Leads.get fun d => ?_
    have hcolumns : (((d.relabel σ.rename).block.table? (σ.rename id)).map (·.columns)).getD [] =
        ((d.block.table? id).map (·.columns)).getD [] := by
      rw [Draft.relabel_block, Block.table?_relabel σ.injective, Option.map_map]
      rfl
    simp only [hcolumns]
    refine Leads.guard Iff.rfl (Leads.edit fun b => ?_)
    refine b.updateTable_relabel σ.injective (fun t => ?_) id
    exact List.foldl_hom (Table.relabel σ.rename) fun t column => t.select_relabel column

theorem leads_noteAlias (named : Option Name) : σ.Leads id (noteAlias named) (noteAlias named) :=
  Leads.update fun _ => rfl

theorem leads_readAggregate (function : List Name) (arguments : Arguments) (tail : CallTail)
    (named : Option Name) :
    σ.Leads id (readAggregate function arguments tail named)
      (readAggregate function arguments tail named) := by
  unfold readAggregate
  refine Leads.next (Leads.asked fun d => d.aggregate?_relabel σ.injective _ _ _) fun found => ?_
  cases found with
  | none => exact Leads.refuse _
  | some p =>
    refine Leads.next (leads_noteAlias named) fun _ => Leads.bind Leads.mint fun id => ?_
    exact Leads.edit fun b => b.addAggregate_relabel
      { id, function := p.1, expression := p.2, aliasName := named.map (·.value) }

/-! ## Conditions, grouping and sorting -/

theorem leads_readSubject (e : Expr) : σ.Leads id (readSubject e) (readSubject e) := by
  unfold readSubject
  cases e.columnName? with
  | none => exact Leads.refuse _
  | some c =>
    refine Leads.bind Leads.get fun d => ?_
    rw [Draft.columnText_relabel d σ.injective]
    exact Leads.pure rfl

theorem leads_addFilter (subject : Expr) (operator : FilterOperator) (value : String)
    (connector : Connector) :
    σ.Leads id (addFilter subject operator value connector)
      (addFilter subject operator value connector) := by
  unfold addFilter
  refine Leads.next (leads_readSubject subject) fun column => Leads.bind Leads.mint fun id => ?_
  exact Leads.edit fun b => b.addFilter_relabel
    { id, column, operator, operand := .value value, connector }

theorem leads_addLinkedFilter (column : String) (operator : FilterOperator) (block : Block)
    (connector : Connector) :
    σ.Leads id (addLinkedFilter column operator block connector)
      (addLinkedFilter column operator (block.relabel σ.rename) connector) := by
  unfold addLinkedFilter
  refine Leads.bind Leads.mint fun filterId => Leads.bind Leads.mint fun id => ?_
  refine Leads.edit fun b => ?_
  rw [← Block.addNested_relabel, ← Block.addFilter_relabel]
  rfl

theorem leads_readGrouping (all : Bool) (terms : List Expr) (modifiers : List String) :
    σ.Leads id (readGrouping all terms modifiers) (readGrouping all terms modifiers) := by
  unfold readGrouping
  refine Leads.guard Iff.rfl (Leads.guard Iff.rfl (Leads.forM (fun e => ?_) terms))
  cases e.columnName? with
  | none => exact Leads.refuse _
  | some c =>
    refine Leads.bind Leads.get fun d => Leads.bind Leads.mint fun id => Leads.edit fun b => ?_
    rw [Draft.columnText_relabel d σ.injective]
    exact b.addGrouping_relabel { id, column := d.columnText c }

theorem leads_readHaving (connector : Connector) (e : Expr) :
    σ.Leads id (readHaving connector e) (readHaving connector e) := by
  unfold readHaving
  split
  · split
    · split
      · refine Leads.next (Leads.asked fun d => d.aggregate?_relabel σ.injective _ _ _)
          fun found => ?_
        cases found with
        | none => exact Leads.refuse _
        | some p =>
          refine Leads.bind Leads.mint fun id => Leads.edit fun b => ?_
          exact b.addHaving_relabel
            { id, function := p.1, column := p.2, operator := _, value := _, connector }
      · exact Leads.refuse _
    · exact Leads.refuse _
  · exact Leads.refuse _

theorem leads_readSortTerm (term : OrderTerm) :
    σ.Leads id (readSortTerm term) (readSortTerm term) := by
  cases term
  unfold readSortTerm
  refine Leads.guard Iff.rfl ?_
  refine Leads.next (Leads.asked (sortColumn_relabel σ.injective _)) fun column => ?_
  refine Leads.bind Leads.mint fun id => Leads.edit fun b => ?_
  exact b.addSortTerm_relabel { id, column, direction := _ }

theorem leads_refuseExtras (x : SelectExtras) :
    σ.Leads id (refuseExtras x) (refuseExtras x) := by
  unfold refuseExtras
  refine Leads.guard Iff.rfl (Leads.guard Iff.rfl (Leads.guard Iff.rfl ?_))
  refine Leads.guard Iff.rfl (Leads.guard Iff.rfl ?_)
  split
  · exact Leads.refuse _
  · exact Leads.pure rfl

theorem leads_readLimit (limit : Option Expr) :
    σ.Leads id (match limit with
      | some e => do
        let value ← ask fun _ => e.limit
        edit ({ · with limit := some value })
      | none => pure ()) (match limit with
      | some e => do
        let value ← ask fun _ => e.limit
        edit ({ · with limit := some value })
      | none => pure ()) := by
  cases limit with
  | none => exact Leads.pure rfl
  | some e =>
    refine Leads.next (Leads.asked fun _ => rfl) fun value => Leads.edit fun b => ?_
    rw [Block.relabel_eq, Block.relabel_eq]

/-- The clauses of a query behind its conditions. -/
theorem leads_clauses (groupBy : List Expr) (having : Option Expr) (x : SelectExtras)
    (orderBy : Option (List OrderTerm)) {m : Drafting Unit} (hm : σ.Leads id m m) :
    σ.Leads id (do
      readGrouping x.groupAll groupBy x.groupModifiers
      ((having.map (·.conditions .and)).getD []).forM fun c => readHaving c.2 c.1
      (orderBy.getD []).forM readSortTerm
      m) (do
      readGrouping x.groupAll groupBy x.groupModifiers
      ((having.map (·.conditions .and)).getD []).forM fun c => readHaving c.2 c.1
      (orderBy.getD []).forM readSortTerm
      m) := by
  refine Leads.next (leads_readGrouping _ _ _) fun _ => ?_
  refine Leads.next (Leads.forM (fun _ => leads_readHaving _ _) _) fun _ => ?_
  exact Leads.next (Leads.forM leads_readSortTerm _) fun _ => hm

/-! ## Blocks -/

mutual

/-- The block of a query is the same up to the names of identifiers. -/
theorem reads_readBlock (hs : s.Looks σ.rename s') (nested : Bool) : ∀ q : Query,
    σ.Reads (Block.relabel σ.rename) (readBlock s nested q)
      (readBlock s' nested q)
  | .mk _ ctes (.other form _) orderBy limit x => by
    unfold readBlock
    exact Reads.guard Iff.rfl (Reads.guard Iff.rfl (Reads.guard Iff.rfl (Reads.refuse _)))
  | .mk _ ctes (.select items sources condition groupBy having sx) orderBy limit x => by
    have hsources := leads_readSources hs sources
    have hitems := leads_readItems hs items
    have hfilters : ∀ e ∈ condition, σ.Leads id (readFilters s .and e)
        (readFilters s' .and e) := by
      cases condition with
      | none => simp
      | some e =>
        rintro _ ⟨⟩
        exact leads_readFilters hs .and e
    unfold readBlock
    refine Reads.guard Iff.rfl (Reads.guard Iff.rfl (Reads.guard Iff.rfl ?_))
    dsimp only
    split
    · exact Reads.pure rfl
    · refine Reads.bind (g := Prod.map id (Draft.relabel σ.rename)) ?_
        fun p => Reads.pure rfl
      refine (?_ : σ.Leads id _ _) Draft.empty
      refine Leads.next (leads_refuseExtras sx) fun _ => Leads.next hsources fun _ => ?_
      have hclauses := leads_clauses (σ := σ) groupBy having sx orderBy (leads_readLimit limit)
      split
      · split
        · exact Leads.next (hfilters _ rfl) fun _ => hclauses
        · exact hclauses
      · refine Leads.next hitems fun _ => ?_
        split
        · exact Leads.next (hfilters _ rfl) fun _ => hclauses
        · exact hclauses

theorem leads_readSources (hs : s.Looks σ.rename s') :
    ∀ l : List FromPart, σ.Leads id (readSources s l) (readSources s' l)
  | [] => Leads.pure rfl
  | .mk source joins :: rest => by
    unfold readSources
    refine Leads.bind (leads_readSource hs source) fun _ => ?_
    exact Leads.next (leads_readJoins hs joins) fun _ => leads_readSources hs rest

theorem leads_readJoins (hs : s.Looks σ.rename s') :
    ∀ l : List JoinClause, σ.Leads id (readJoins s l) (readJoins s' l)
  | [] => Leads.pure rfl
  | .mk _ op source constraint :: rest => by
    have hrest := leads_readJoins hs rest
    have hsource := leads_readSource hs source
    unfold readJoins
    split
    · exact Leads.bind hsource fun _ => hrest
    · refine Leads.bind hsource fun joined => ?_
      cases joined with
      | none => exact Leads.next (Leads.refuse _) fun _ => hrest
      | some joined => exact Leads.next (leads_readConstraint joined _ constraint) fun _ => hrest
    · exact Leads.next (Leads.refuse _) fun _ => hrest

theorem leads_readSource (hs : s.Looks σ.rename s') : ∀ source : Source,
    σ.Leads (Option.map σ.rename) (readSource s source) (readSource s' source)
  | .table name arguments named _ => by
    unfold readSource
    exact Leads.guard Iff.rfl (Leads.map (leads_readTable hs name named) fun _ => rfl)
  | .derived lateral q named => by
    unfold readSource
    refine Leads.guard Iff.rfl (Leads.bind (Leads.lift (reads_readBlock hs true q)) fun block => ?_)
    refine Leads.bind Leads.mint fun id => Leads.guard Iff.rfl ?_
    refine Leads.next (Leads.update fun d => ?_) fun _ => Leads.pure rfl
    exact takeNested_relabel d (named.map (·.name.value))
      { id, role := .fromClause, aliasName := _, linkedFilter := none, frame := default, block }
  | .joined _ => Leads.refuse _
  | .other _ => Leads.refuse _

theorem leads_readItems (hs : s.Looks σ.rename s') :
    ∀ l : List SelectItem, σ.Leads id (readItems s l) (readItems s' l)
  | [] => Leads.pure rfl
  | .wildcard _ :: _ => Leads.refuse _
  | .tableWildcard table _ :: rest =>
    Leads.next (leads_readAllColumns table) fun _ => leads_readItems hs rest
  | .expr e named :: rest => by
    have hrest := leads_readItems hs rest
    cases e with
    | column parts => exact Leads.next (leads_readColumn _ named) fun _ => hrest
    | call function _ arguments tail =>
      exact Leads.next (leads_readAggregate function arguments tail named) fun _ => hrest
    | subquery q =>
      refine Leads.bind (Leads.lift (reads_readBlock hs true q)) fun block => ?_
      refine Leads.bind Leads.mint fun id => Leads.next (leads_noteAlias named) fun _ => ?_
      refine Leads.next (Leads.edit fun b => ?_) fun _ => hrest
      exact b.addNested_relabel
        { id, role := .selectList, aliasName := _, linkedFilter := none, frame := default, block }
    | _ => exact Leads.next (Leads.refuse _) fun _ => hrest

theorem leads_readFilters (hs : s.Looks σ.rename s') : ∀ (last : Connector) (e : Expr),
    σ.Leads id (readFilters s last e) (readFilters s' last e)
  | last, .binary left op right => by
    cases op with
    | and =>
      rw [readFilters, readFilters]
      exact Leads.next (leads_readFilters hs .and left) fun _ => leads_readFilters hs last right
    | or =>
      rw [readFilters, readFilters]
      exact Leads.next (leads_readFilters hs .or left) fun _ => leads_readFilters hs last right
    | compare c =>
      cases right with
      | subquery q =>
        refine Leads.next (leads_readSubject left) fun column => ?_
        exact Leads.bind (Leads.lift (reads_readBlock hs true q)) fun b =>
          leads_addLinkedFilter _ _ _ _
      | _ =>
        exact Leads.next (Leads.asked fun _ => rfl) fun value => leads_addFilter _ _ _ _
    | other t => cases right <;> exact Leads.refuse _
  | last, .inQuery subject negated q => by
    rw [readFilters, readFilters]
    refine Leads.next (leads_readSubject subject) fun column => ?_
    exact Leads.bind (Leads.lift (reads_readBlock hs true q)) fun b => leads_addLinkedFilter _ _ _ _
  | last, .like anyCase negated _ subject pattern escape => by
    unfold readFilters
    refine Leads.guard Iff.rfl (Leads.next (Leads.asked fun _ => rfl) fun value => ?_)
    exact leads_addFilter _ _ _ _
  | last, .test subject operator => leads_addFilter _ _ _ _
  | last, .inList subject negated items => leads_addFilter _ _ _ _
  | last, .between subject negated low high => leads_addFilter _ _ _ _
  | last, .nested _ => Leads.refuse _
  | last, .column _ => Leads.refuse _
  | last, .number _ _ => Leads.refuse _
  | last, .text _ => Leads.refuse _
  | last, .null => Leads.refuse _
  | last, .subquery _ => Leads.refuse _
  | last, .signed _ _ => Leads.refuse _
  | last, .call _ _ _ _ => Leads.refuse _
  | last, .other _ => Leads.refuse _

end

/-! ## Canvases and texts -/

theorem reads_readCtes (catalog : Catalog) : ∀ (parts : List CtePart) (known : List Cte),
    σ.Reads (List.map (Cte.relabel σ.rename)) (readCtes catalog known parts)
      (readCtes catalog (known.map (Cte.relabel σ.rename)) parts)
  | [], known => Reads.pure rfl
  | .mk named _ q _ :: rest, known => by
    unfold readCtes
    refine Reads.guard Iff.rfl (Reads.guard ?_ ?_)
    · rw [List.any_map]
      rfl
    · have hlooks := Scope.looks_relabel σ.rename { catalog, ctes := known }
      refine Reads.bind (reads_readBlock hlooks true q) fun block => ?_
      refine Reads.bind (Reads.lift Yields.mint) fun id => ?_
      have hrest := reads_readCtes catalog rest
        (known ++ [{ id, name := named.name.value, frame := default, block }])
      rw [List.map_append] at hrest
      exact hrest

theorem reads_readCanvas (catalog : Catalog) (q : Query) :
    σ.Reads (Canvas.relabel σ.rename) (readCanvas catalog q) (readCanvas catalog q) := by
  cases q
  unfold readCanvas
  refine Reads.guard Iff.rfl (Reads.bind (reads_readCtes catalog _ []) fun known => ?_)
  refine Reads.bind (reads_readBlock
    (Scope.looks_relabel σ.rename { catalog, ctes := known }) false _) fun root => ?_
  exact Reads.pure rfl

theorem reads_readQuery (d : Dialect) (text : String) :
    σ.Reads id (readQuery d text) (readQuery d text) := by
  unfold readQuery
  split
  · exact Reads.pure rfl
  · exact Reads.throw _

/-- The canvas of a text is the same up to the names of identifiers. -/
theorem reads_readText (d : Dialect) (catalog : Catalog) (text : String) :
    σ.Reads (Canvas.relabel σ.rename) (readText d catalog text) (readText d catalog text) :=
  Reads.bind (reads_readQuery d text) fun q => reads_readCanvas catalog q

/-- The block of a text is the same up to the names of identifiers. -/
theorem reads_readNestedText (d : Dialect) (hs : s.Looks σ.rename s') (text : String) :
    σ.Reads (Block.relabel σ.rename) (readNestedText d s text) (readNestedText d s' text) :=
  Reads.bind (reads_readQuery d text) fun q => reads_readBlock hs true q

end Shift

end QueryCanvas.Sql
