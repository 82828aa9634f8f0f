import QueryCanvas.Proofs.Reading.Steps

/-!
# The blocks that reading can come to

While a block is read off a query, its draft is changed in few ways: a table, a join, a condition or
another entity is added with the next identifier, columns of a table are chosen, a nested query that
was read meanwhile is put in.  The blocks that such changes lead to from the empty block include
every block that is read, whatever the query says, so what all these changes preserve holds of
every block that is read.
-/

set_option autoImplicit false

namespace QueryCanvas.Sql

open Drafting

/-- What a source that is no nested query is drawn as: a table with the columns that the catalog
knows of it, or one that reads a named query of the scope. -/
inductive Scope.Box (s : Scope) (id : EntityId) : Table → Prop
  | table (name : String) : s.Box id (Table.create id name (s.catalog.columns name) default)
  | cte {q : Cte} (hq : q ∈ s.ctes) :
    s.Box id { Table.create id q.name q.block.outputColumns default with cte := some q.id }

/-- Reading can come to the block while the counter goes from `lo` to `n`.  The names that are known
on the way do not matter. -/
inductive Scope.Reaches (s : Scope) : Nat → Nat → Block → Prop
  | empty (n : Nat) : Reaches s n n Block.empty
  | table {lo n : Nat} {b : Block} (h : Reaches s lo n b) {t : Table}
      (hbox : s.Box (EntityId.minted n) t) (hnew : ∀ u ∈ b.tables, ¬Text.sameName u.name t.name) :
      Reaches s lo (n + 1) (b.addTable t)
  | join {lo n : Nat} {b : Block} (h : Reaches s lo n b) {j : Join}
      (hid : j.id = EntityId.minted n) : Reaches s lo (n + 1) (b.addJoin j)
  | choose {lo n : Nat} {b : Block} (h : Reaches s lo n b) (table : EntityId)
      (columns : List String) :
      Reaches s lo n (b.updateTable table fun t => columns.foldl Table.select t)
  | aggregate {lo n : Nat} {b : Block} (h : Reaches s lo n b) {a : SelectAggregate}
      (hid : a.id = EntityId.minted n) : Reaches s lo (n + 1) (b.addAggregate a)
  | filter {lo n : Nat} {b : Block} (h : Reaches s lo n b) {f : Filter}
      (hid : f.id = EntityId.minted n) (hvalue : f.operand.subquery? = none) :
      Reaches s lo (n + 1) (b.addFilter f)
  | grouping {lo n : Nat} {b : Block} (h : Reaches s lo n b) {g : Grouping}
      (hid : g.id = EntityId.minted n) : Reaches s lo (n + 1) (b.addGrouping g)
  | having {lo n : Nat} {b : Block} (h : Reaches s lo n b) {c : Having}
      (hid : c.id = EntityId.minted n) : Reaches s lo (n + 1) (b.addHaving c)
  | sortTerm {lo n : Nat} {b : Block} (h : Reaches s lo n b) {t : SortTerm}
      (hid : t.id = EntityId.minted n) : Reaches s lo (n + 1) (b.addSortTerm t)
  | limit {lo n : Nat} {b : Block} (h : Reaches s lo n b) {e : Expr} {value : Limit}
      (hvalue : e.limit = .ok value) : Reaches s lo n { b with limit := some value }
  /-- A nested query in the `FROM` clause or among the results. -/
  | nest {lo n m : Nat} {b : Block} (h : Reaches s lo n b) {q : Subquery}
      (hinner : Reaches s n m q.block) (hid : q.id = EntityId.minted m)
      (hrole : q.role ≠ .whereClause) (hlink : q.linkedFilter = none) :
      Reaches s lo (m + 1) { b with subqueries := b.subqueries ++ [q] }
  /-- A nested query in the `WHERE` clause, with the filter that compares with it. -/
  | compare {lo n m : Nat} {b : Block} (h : Reaches s lo n b) {q : Subquery}
      (hinner : Reaches s n m q.block) {f : Filter} (hfilter : f.id = EntityId.minted m)
      (hid : q.id = EntityId.minted (m + 1)) (hrole : q.role = .whereClause)
      (hoperand : f.operand = .subquery q.id) (hlink : q.linkedFilter = some f.id) :
      Reaches s lo (m + 2) { b with
        filters := b.filters ++ [f], subqueries := b.subqueries ++ [q] }

/-- The counter does not go back. -/
theorem Scope.Reaches.le {s : Scope} {lo n : Nat} {b : Block} (h : s.Reaches lo n b) : lo ≤ n := by
  induction h <;> omega

/-- The block of the draft is one that reading can come to. -/
abbrev Draft.Reached (s : Scope) (lo n : Nat) (d : Draft) : Prop := s.Reaches lo n d.block

variable {s : Scope} {lo : Nat}

/-! ## Steps that add no nested query -/

/-- An entity with the next identifier is added. -/
theorem add_reached {add : EntityId → Block → Block}
    (h : ∀ n b, s.Reaches lo n b → s.Reaches lo (n + 1) (add (EntityId.minted n) b)) :
    Leads (Draft.Reached s lo) (mint >>= fun id => edit (add id)) fun _ => Draft.Reached s lo := by
  refine Leads.bind (Leads.mint (Q := fun id n d => ∃ m, n = m + 1 ∧ id = EntityId.minted m ∧
    Draft.Reached s lo m d) fun n d h => ⟨n, rfl, rfl, h⟩) fun id => Leads.edit ?_
  rintro _ d ⟨n, rfl, rfl, hd⟩
  exact h n d.block hd

theorem get_reached : Leads (Draft.Reached s lo) get fun _ => Draft.Reached s lo :=
  Leads.get fun _ _ h => h

theorem noteAlias_reached (named : Option Name) :
    Leads (Draft.Reached s lo) (noteAlias named) fun _ => Draft.Reached s lo :=
  Leads.update fun _ _ h => h

theorem readTable_reached (name : List Name) (named : Option Alias) :
    Leads (Draft.Reached s lo) (readTable s name named) fun _ => Draft.Reached s lo := by
  unfold readTable
  refine Leads.bind (Leads.get (Q := fun d' n d => d = d' ∧ d.Reached s lo n)
    fun _ _ h => ⟨rfl, h⟩) fun before => ?_
  refine Leads.guard fun hnone => ?_
  refine Leads.bind (Leads.mint (Q := fun id n d =>
    ∃ m, n = m + 1 ∧ id = EntityId.minted m ∧ d = before ∧ d.Reached s lo m)
    fun n d h => ⟨n, rfl, rfl, h⟩) fun id => ?_
  refine Leads.guard fun _ => ?_
  refine Leads.bind (Leads.update (Q := fun _ => Draft.Reached s lo) ?_) fun _ =>
    Leads.pure fun _ _ h => h
  rintro _ d ⟨n, rfl, rfl, rfl, h⟩
  have hnone' : d.block.tableNamed? (plainPath name) = none := by simpa using hnone
  have hnew := List.find?_eq_none.1 hnone'
  refine h.table ?_ ?_
  · split
    · rename_i q hq
      split at hq
      · exact .cte (List.mem_of_find?_eq_some hq)
      · cases hq
    · exact .table (plainPath name)
  · split
    · rename_i q hq
      split at hq
      · intro u hu hsame
        have hcalled : Text.sameName _ (plainPath name) :=
          List.find?_some (p := fun q : Cte => Text.sameName q.name (plainPath name)) hq
        exact hnew u hu (Text.sameName_trans hsame hcalled)
      · cases hq
    · exact hnew

theorem readEquality_reached (joined : EntityId) (kind : JoinKind) (e : Expr) :
    Leads (Draft.Reached s lo) (readEquality joined kind e) fun _ => Draft.Reached s lo := by
  unfold readEquality
  split
  · refine Leads.bind Leads.asked fun source => Leads.bind Leads.asked fun target => ?_
    refine Leads.guard fun _ => Leads.guard fun _ => Leads.bind get_reached fun _ => ?_
    refine Leads.guard fun _ => add_reached fun _ _ h => h.join rfl
  · exact Leads.refuse _

theorem readConstraint_reached (joined : EntityId) (kind : JoinKind) (c : Constraint) :
    Leads (Draft.Reached s lo) (readConstraint joined kind c) fun _ => Draft.Reached s lo := by
  unfold readConstraint
  split
  · unfold readJoinCondition
    exact Leads.guard fun _ => Leads.forM (fun _ => readEquality_reached joined kind _) _
  · exact Leads.pure fun _ _ h => h
  · exact Leads.refuse _

theorem choose_reached (table : EntityId) (columns : List String) :
    Leads (Draft.Reached s lo) (edit (·.updateTable table fun t => columns.foldl Table.select t))
      fun _ => Draft.Reached s lo :=
  Leads.edit fun _ _ h => h.choose table columns

theorem readColumn_reached (e : Expr) (named : Option Name) :
    Leads (Draft.Reached s lo) (readColumn e named) fun _ => Draft.Reached s lo := by
  unfold readColumn
  refine Leads.guard fun _ => ?_
  split
  · exact Leads.refuse _
  · refine Leads.bind Leads.asked fun table => Leads.bind get_reached fun _ => ?_
    exact choose_reached table [_]

theorem readAllColumns_reached (table : List Name) :
    Leads (Draft.Reached s lo) (readAllColumns table) fun _ => Draft.Reached s lo := by
  unfold readAllColumns
  refine Leads.bind get_reached fun _ => ?_
  split
  · refine Leads.bind get_reached fun _ => Leads.guard fun _ => ?_
    exact choose_reached _ _
  · exact Leads.refuse _
  · exact Leads.refuse _

theorem readAggregate_reached (function : List Name) (arguments : Arguments) (tail : CallTail)
    (named : Option Name) :
    Leads (Draft.Reached s lo) (readAggregate function arguments tail named)
      fun _ => Draft.Reached s lo := by
  unfold readAggregate
  refine Leads.bind Leads.asked fun call => ?_
  split
  · exact Leads.refuse _
  · refine Leads.bind (noteAlias_reached named) fun _ => add_reached fun _ _ h => ?_
    exact h.aggregate rfl

theorem readSubject_reached (e : Expr) :
    Leads (Draft.Reached s lo) (readSubject e) fun _ => Draft.Reached s lo := by
  unfold readSubject
  split
  · exact Leads.bind get_reached fun _ => Leads.pure fun _ _ h => h
  · exact Leads.refuse _

theorem addFilter_reached (subject : Expr) (operator : FilterOperator) (value : String)
    (connector : Connector) :
    Leads (Draft.Reached s lo) (addFilter subject operator value connector)
      fun _ => Draft.Reached s lo := by
  unfold addFilter
  refine Leads.bind (readSubject_reached subject) fun column => add_reached fun _ _ h => ?_
  exact h.filter rfl rfl

theorem readGrouping_reached (all : Bool) (terms : List Expr) (modifiers : List String) :
    Leads (Draft.Reached s lo) (readGrouping all terms modifiers) fun _ => Draft.Reached s lo := by
  unfold readGrouping
  refine Leads.guard fun _ => Leads.guard fun _ => Leads.forM (fun e => ?_) terms
  split
  · exact Leads.refuse _
  · exact Leads.bind get_reached fun _ => add_reached fun _ _ h => h.grouping rfl

theorem readHaving_reached (connector : Connector) (e : Expr) :
    Leads (Draft.Reached s lo) (readHaving connector e) fun _ => Draft.Reached s lo := by
  unfold readHaving
  split
  · split
    · split
      · refine Leads.bind Leads.asked fun call => ?_
        split
        · exact Leads.refuse _
        · exact add_reached fun _ _ h => h.having rfl
      · exact Leads.refuse _
    · exact Leads.refuse _
  · exact Leads.refuse _

theorem readSortTerm_reached (term : OrderTerm) :
    Leads (Draft.Reached s lo) (readSortTerm term) fun _ => Draft.Reached s lo := by
  cases term
  unfold readSortTerm
  refine Leads.guard fun _ => Leads.bind Leads.asked fun column => ?_
  exact add_reached fun _ _ h => h.sortTerm rfl

theorem refuseExtras_reached (x : SelectExtras) :
    Leads (Draft.Reached s lo) (refuseExtras x) fun _ => Draft.Reached s lo := by
  unfold refuseExtras
  refine Leads.guard fun _ => Leads.guard fun _ => Leads.guard fun _ => ?_
  refine Leads.guard fun _ => Leads.guard fun _ => ?_
  split
  · exact Leads.refuse _
  · exact Leads.pure fun _ _ h => h

theorem readLimit_reached (limit : Option Expr) :
    Leads (Draft.Reached s lo) (match limit with
      | some e => do
        let value ← ask fun _ => e.limit
        edit ({ · with limit := some value })
      | none => pure ()) fun _ => Draft.Reached s lo := by
  cases limit with
  | none => exact Leads.pure fun _ _ h => h
  | some e =>
    refine Leads.bind (Leads.ask (Q := fun value n d => e.limit = .ok value ∧ d.Reached s lo n)
      fun _ _ _ h hvalue => ⟨hvalue, h⟩) fun value => Leads.edit ?_
    exact fun n d ⟨hvalue, h⟩ => h.limit hvalue

/-! ## Nested queries -/

/-- A nested query was read after the draft, which stands as it was. -/
def Draft.Beside (s : Scope) (lo : Nat) (b : Block) (m : Nat) (d : Draft) : Prop :=
  ∃ n, d.Reached s lo n ∧ s.Reaches n m b

/-- A nested query was read after the draft and got the last identifier. -/
def Draft.BesideAs (s : Scope) (lo : Nat) (b : Block) (id : EntityId) (n : Nat) (d : Draft) :
    Prop :=
  ∃ m, n = m + 1 ∧ id = EntityId.minted m ∧ Draft.Beside s lo b m d

theorem lift_reached {m : Reading Block} (h : ∀ n, Reads n m fun b n' => s.Reaches n n' b) :
    Leads (Draft.Reached s lo) (m : Drafting Block) (Draft.Beside s lo) :=
  Leads.lift fun n _ hd => (h n).imp fun _ _ _ hb => ⟨n, hd, hb⟩

theorem mint_beside (b : Block) :
    Leads (Draft.Beside s lo b) mint (Draft.BesideAs s lo b) :=
  Leads.mint fun n _ h => ⟨n, rfl, rfl, h⟩

theorem addLinkedFilter_reached (column : String) (operator : FilterOperator) (b : Block)
    (connector : Connector) :
    Leads (Draft.Beside s lo b) (addLinkedFilter column operator b connector)
      fun _ => Draft.Reached s lo := by
  unfold addLinkedFilter
  refine Leads.bind (mint_beside b) fun filterId => ?_
  refine Leads.bind (Leads.mint (Q := fun id n d => ∃ m, n = m + 2 ∧
    filterId = EntityId.minted m ∧ id = EntityId.minted (m + 1) ∧ d.Beside s lo b m) ?_)
    fun id => Leads.edit ?_
  · rintro _ d ⟨m, rfl, hfilter, h⟩
    exact ⟨m, rfl, hfilter, rfl, h⟩
  · rintro _ d ⟨m, rfl, rfl, rfl, n, hd, hinner⟩
    exact hd.compare hinner rfl rfl rfl rfl rfl

/-- The clauses of a query behind its conditions. -/
theorem clauses_reached (s : Scope) (lo : Nat) (groupBy : List Expr) (having : Option Expr)
    (x : SelectExtras) (orderBy : Option (List OrderTerm)) (limit : Option Expr) :
    Leads (Draft.Reached s lo) (do
      readGrouping x.groupAll groupBy x.groupModifiers
      ((having.map (·.conditions .and)).getD []).forM fun c => readHaving c.2 c.1
      (orderBy.getD []).forM readSortTerm
      match limit with
      | some e =>
        let value ← ask fun _ => e.limit
        edit ({ · with limit := some value })
      | none => pure ()) fun _ => Draft.Reached s lo := by
  refine Leads.bind (readGrouping_reached _ _ _) fun _ => ?_
  refine Leads.bind (Leads.forM (fun _ => readHaving_reached _ _) _) fun _ => ?_
  exact Leads.bind (Leads.forM readSortTerm_reached _) fun _ => readLimit_reached limit

/-! ## Blocks -/

mutual

theorem readBlock_reached (s : Scope) (nested : Bool) :
    ∀ (q : Query) (n : Nat), Reads n (readBlock s nested q) fun b n' => s.Reaches n n' b
  | .mk _ ctes (.other form _) orderBy limit x, n => by
    unfold readBlock
    exact Reads.guard fun _ => Reads.guard fun _ => Reads.guard fun _ => Reads.refuse _
  | .mk _ ctes (.select items sources condition groupBy having sx) orderBy limit x, n => by
    have hsources := readSources_reached s n sources
    have hitems := readItems_reached s n items
    have hfilters : ∀ e ∈ condition, Leads (Draft.Reached s n) (readFilters s .and e)
        fun _ => Draft.Reached s n := by
      cases condition with
      | none => simp
      | some e =>
        rintro _ ⟨⟩
        exact readFilters_reached s n .and e
    unfold readBlock
    refine Reads.guard fun _ => Reads.guard fun _ => Reads.guard fun _ => ?_
    dsimp only
    split
    · exact Reads.pure (.empty n)
    · refine Reads.bind (Q := fun p n' => Draft.Reached s n n' p.2) ?_
        fun p n' _ h => Reads.pure h
      refine (?_ : Leads (Draft.Reached s n) _ fun _ => Draft.Reached s n) n Draft.empty (.empty n)
      refine Leads.bind (refuseExtras_reached sx) fun _ => Leads.bind hsources fun _ => ?_
      have hclauses := clauses_reached s n groupBy having sx orderBy limit
      split
      · split
        · exact Leads.bind (hfilters _ rfl) fun _ => hclauses
        · exact hclauses
      · refine Leads.bind hitems fun _ => ?_
        split
        · exact Leads.bind (hfilters _ rfl) fun _ => hclauses
        · exact hclauses

theorem readSources_reached (s : Scope) (lo : Nat) :
    ∀ l : List FromPart, Leads (Draft.Reached s lo) (readSources s l) fun _ => Draft.Reached s lo
  | [] => Leads.pure fun _ _ h => h
  | .mk source joins :: rest => by
    unfold readSources
    refine Leads.bind (readSource_reached s lo source) fun _ => ?_
    exact Leads.bind (readJoins_reached s lo joins) fun _ => readSources_reached s lo rest

theorem readJoins_reached (s : Scope) (lo : Nat) :
    ∀ l : List JoinClause, Leads (Draft.Reached s lo) (readJoins s l) fun _ => Draft.Reached s lo
  | [] => Leads.pure fun _ _ h => h
  | .mk _ op source constraint :: rest => by
    have hrest := readJoins_reached s lo rest
    have hsource := readSource_reached s lo source
    unfold readJoins
    split
    · exact Leads.bind hsource fun _ => hrest
    · refine Leads.bind hsource fun joined => ?_
      split
      · exact Leads.bind (Q := fun _ => Draft.Reached s lo) (Leads.refuse _) fun _ => hrest
      · exact Leads.bind (readConstraint_reached _ _ constraint) fun _ => hrest
    · exact Leads.bind (Q := fun _ => Draft.Reached s lo) (Leads.refuse _) fun _ => hrest

theorem readSource_reached (s : Scope) (lo : Nat) :
    ∀ source : Source, Leads (Draft.Reached s lo) (readSource s source) fun _ => Draft.Reached s lo
  | .table name arguments named _ => by
    unfold readSource
    exact Leads.guard fun _ => Leads.map (readTable_reached name named)
  | .derived lateral q named => by
    unfold readSource
    refine Leads.guard fun _ => Leads.bind (lift_reached (readBlock_reached s true q)) fun b => ?_
    refine Leads.bind (mint_beside b) fun id => Leads.guard fun _ => ?_
    refine Leads.bind (Leads.update (Q := fun _ => Draft.Reached s lo) ?_) fun _ =>
      Leads.pure fun _ _ h => h
    rintro _ d ⟨m, rfl, rfl, n, hd, hinner⟩
    exact hd.nest hinner rfl (by simp) rfl
  | .joined _ => Leads.refuse _
  | .other _ => Leads.refuse _

theorem readItems_reached (s : Scope) (lo : Nat) :
    ∀ l : List SelectItem, Leads (Draft.Reached s lo) (readItems s l) fun _ => Draft.Reached s lo
  | [] => Leads.pure fun _ _ h => h
  | .wildcard _ :: _ => Leads.refuse _
  | .tableWildcard table _ :: rest =>
    Leads.bind (readAllColumns_reached table) fun _ => readItems_reached s lo rest
  | .expr e named :: rest => by
    have hrest := readItems_reached s lo rest
    cases e with
    | column parts => exact Leads.bind (readColumn_reached _ named) fun _ => hrest
    | call function _ arguments tail =>
      exact Leads.bind (readAggregate_reached function arguments tail named) fun _ => hrest
    | subquery q =>
      refine Leads.bind (lift_reached (readBlock_reached s true q)) fun b => ?_
      refine Leads.bind (mint_beside b) fun id => ?_
      refine Leads.bind (Leads.update (Q := fun _ => Draft.BesideAs s lo b id)
        fun _ _ h => h) fun _ => ?_
      refine Leads.bind (Leads.edit (Q := fun _ => Draft.Reached s lo) ?_) fun _ => hrest
      rintro _ d ⟨m, rfl, rfl, n, hd, hinner⟩
      exact hd.nest hinner rfl (by simp) rfl
    | _ => exact Leads.bind (Q := fun _ => Draft.Reached s lo) (Leads.refuse _) fun _ => hrest

theorem readFilters_reached (s : Scope) (lo : Nat) :
    ∀ (last : Connector) (e : Expr),
      Leads (Draft.Reached s lo) (readFilters s last e) fun _ => Draft.Reached s lo
  | last, .binary left op right => by
    cases op with
    | and =>
      rw [readFilters]
      exact Leads.bind (readFilters_reached s lo .and left) fun _ =>
        readFilters_reached s lo last right
    | or =>
      rw [readFilters]
      exact Leads.bind (readFilters_reached s lo .or left) fun _ =>
        readFilters_reached s lo last right
    | compare c =>
      cases right with
      | subquery q =>
        refine Leads.bind (readSubject_reached left) fun column => ?_
        exact Leads.bind (lift_reached (readBlock_reached s true q)) fun b =>
          addLinkedFilter_reached _ _ _ _
      | _ => exact Leads.bind Leads.asked fun value => addFilter_reached _ _ _ _
    | other t => cases right <;> exact Leads.refuse _
  | last, .inQuery subject negated q => by
    rw [readFilters]
    refine Leads.bind (readSubject_reached subject) fun column => ?_
    exact Leads.bind (lift_reached (readBlock_reached s true q)) fun b =>
      addLinkedFilter_reached _ _ _ _
  | last, .like anyCase negated _ subject pattern escape => by
    unfold readFilters
    refine Leads.guard fun _ => Leads.bind Leads.asked fun value => ?_
    exact addFilter_reached _ _ _ _
  | last, .test subject operator => addFilter_reached _ _ _ _
  | last, .inList subject negated items => addFilter_reached _ _ _ _
  | last, .between subject negated low high => addFilter_reached _ _ _ _
  | last, .nested _ => Leads.refuse _
  | last, .column _ => Leads.refuse _
  | last, .number _ _ => Leads.refuse _
  | last, .text _ => Leads.refuse _
  | last, .null => Leads.refuse _
  | last, .subquery _ => Leads.refuse _
  | last, .signed _ _ => Leads.refuse _
  | last, .call _ _ _ _ => Leads.refuse _
  | last, .other _ => Leads.refuse _

end

/-! ## Canvases -/

/-- Reading can come to the named queries while the counter goes from `lo` to `n`: each is read in
the scope of those before it, and has a name that none of them has. -/
inductive CtesReached (catalog : Catalog) : Nat → Nat → List Cte → Prop
  | nil (n : Nat) : CtesReached catalog n n []
  | push {lo n m : Nat} {known : List Cte} (h : CtesReached catalog lo n known) {q : Cte}
      (hnew : ∀ r ∈ known, ¬Text.sameName r.name q.name)
      (hblock : Scope.Reaches { catalog, ctes := known } n m q.block)
      (hid : q.id = EntityId.minted m) : CtesReached catalog lo (m + 1) (known ++ [q])

/-- The counter does not go back. -/
theorem CtesReached.le {catalog : Catalog} {lo n : Nat} {ctes : List Cte}
    (h : CtesReached catalog lo n ctes) : lo ≤ n := by
  induction h with
  | nil => exact Nat.le_refl lo
  | push h hnew hblock hid ih =>
    have := hblock.le
    omega

/-- Reading can come to the canvas while the counter goes from `lo` to `n`. -/
def CanvasReached (catalog : Catalog) (lo n : Nat) (c : Canvas) : Prop :=
  ∃ m, CtesReached catalog lo m c.ctes ∧
    Scope.Reaches { catalog, ctes := c.ctes } m n c.root

theorem readCtes_reached (catalog : Catalog) (lo : Nat) :
    ∀ (parts : List CtePart) (known : List Cte) (n : Nat), CtesReached catalog lo n known →
      Reads n (readCtes catalog known parts) fun ctes n' => CtesReached catalog lo n' ctes
  | [], known, n, h => Reads.pure h
  | .mk named _ q _ :: rest, known, n, h => by
    unfold readCtes
    refine Reads.guard fun _ => Reads.guard fun hnew => ?_
    refine Reads.bind (readBlock_reached _ true q n) fun b m _ hb => ?_
    refine Reads.bind (Reads.lift (Yields.mint (Q := fun id n' =>
      n' = m + 1 ∧ id = EntityId.minted m) ⟨rfl, rfl⟩)) ?_
    rintro _ _ - ⟨rfl, rfl⟩
    exact readCtes_reached catalog lo rest _ (m + 1) (h.push (by simpa using hnew) hb rfl)

theorem readCanvas_reached (catalog : Catalog) (q : Query) (n : Nat) :
    Reads n (readCanvas catalog q) fun c n' => CanvasReached catalog n n' c := by
  cases q
  unfold readCanvas
  refine Reads.guard fun _ => ?_
  refine Reads.bind (readCtes_reached catalog n _ [] n (.nil n)) fun ctes m _ hctes => ?_
  refine Reads.bind (readBlock_reached _ false _ m) fun root n' _ hroot => Reads.pure ?_
  exact ⟨m, hctes, hroot⟩

theorem reads_query (d : Dialect) (text : String) (n : Nat) :
    Reads n (readQuery d text) fun _ n' => n' = n := by
  unfold readQuery
  split
  · exact Reads.pure rfl
  · exact ⟨Nat.le_refl n, by rintro _ _ ⟨⟩⟩

theorem readText_reached (d : Dialect) (catalog : Catalog) (text : String) (n : Nat) :
    Reads n (readText d catalog text) fun c n' => CanvasReached catalog n n' c := by
  unfold readText
  refine Reads.bind (reads_query d text n) ?_
  rintro q _ - rfl
  exact readCanvas_reached catalog q _

theorem readNestedText_reached (d : Dialect) (s : Scope) (text : String) (n : Nat) :
    Reads n (readNestedText d s text) fun b n' => s.Reaches n n' b := by
  unfold readNestedText
  refine Reads.bind (reads_query d text n) ?_
  rintro q _ - rfl
  exact readBlock_reached s true q _

end QueryCanvas.Sql
