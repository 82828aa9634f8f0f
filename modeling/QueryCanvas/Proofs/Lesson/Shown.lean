import QueryCanvas.Lesson
import QueryCanvas.Proofs.Arrangement.Sides
import QueryCanvas.Proofs.CarryOver.Shape
import QueryCanvas.Sql.Render

/-!
# Challenges and the shape of a query

The shape of a canvas leaves out what its query does not say: blocks that are not written, joins
that lead to nothing, values of operators that take none.  Criteria search the whole drawing.  What
a criterion finds among the things that the shape shows, it finds in every canvas of this shape; so
two canvases of one shape meet a criterion both or neither, unless one of them meets it by other
things alone.
-/

set_option autoImplicit false

namespace QueryCanvas

/-! ## What the shape of a canvas shows -/

/-- The query of a block shows a nested query: a derived table, one among the results, or one that a
filter compares with. -/
def Block.DisplaysNested (b : Block) (s : Subquery) : Prop :=
  s ∈ b.subqueries ∧ (s.role ≠ .whereClause ∨
    ∃ f ∈ b.filters, f.operand.subquery?.bind b.subquery? = some s)

/-- The blocks that the query of a block shows. -/
inductive Block.Displays : Block → Block → Prop
  | self (b : Block) : Displays b b
  | nested {b x : Block} {s : Subquery} : b.DisplaysNested s → Displays s.block x → Displays b x

/-- The blocks that the query of a canvas shows: those of the root and of the named queries that
read from something. -/
def Canvas.Displays (c : Canvas) (b : Block) : Prop :=
  c.root.Displays b ∨ ∃ q ∈ c.ctes, q.block.hasNoSource = false ∧ q.block.Displays b

namespace Criterion

/-- A block meets the criterion by something that its shape shows: by a column with no aggregate
around it, by a join between two tables of the block, by a value of an operator that takes one.  The
empty value is not told from a link to nothing. -/
def ShownIn (b : Block) : Criterion → Prop
  | hasColumn table column =>
    ∃ t ∈ b.tables, Text.sameName t.name table ∧
      ∃ c ∈ t.selected, Text.sameName c column ∧ t.aggregates.find? c = none
  | hasJoin left right =>
    ∃ j ∈ b.joins, ∃ s, j.shape? b = some s ∧
      ((Text.sameName s.source left ∧ Text.sameName s.target right) ∨
        (Text.sameName s.source right ∧ Text.sameName s.target left))
  | hasJoinKind kind => ∃ j ∈ b.joins, (j.shape? b).isSome ∧ j.kind = kind
  | hasFilter column operator (some value) =>
    ∃ f ∈ b.filters, columnMatches f.column column ∧ operator.all (f.operator = ·) ∧
      f.operator.isUnary = false ∧ Text.trim value ≠ "" ∧
        f.operand = .value (Text.trim value)
  | sqlContains _ => True
  | k => k.holdsIn b

/-- A canvas with its query text meets the criterion, but by nothing that its shape shows. -/
def MetAside (c : Canvas) (sql : String) (k : Criterion) : Prop :=
  k.holds c sql ∧ ¬∃ b, c.Displays b ∧ k.ShownIn b

end Criterion

/-! ## Blocks of one shape -/

namespace Block

variable {b b' : Block}

/-- Filters by what their shapes say, their connectors apart. -/
theorem map_shape_filters (b : Block) :
    b.shape.filters.map ({ · with connector := .and }) =
      b.filters.map fun f => { f.shape (b.subqueries.map shaped) with connector := .and } := by
  have hkeeps : ∀ fs : List (FilterShapeOf BlockShape),
      (updateLast ({ · with connector := .and }) fs).map ({ · with connector := .and }) =
        fs.map ({ · with connector := .and }) :=
    map_updateLast fun _ => rfl
  have hfilters : b.shape.filters = updateLast ({ · with connector := .and })
      (b.filters.map (Filter.shape (b.subqueries.map shaped))) := by
    rw [shape_eq]
    rfl
  rw [hfilters, hkeeps, List.map_map]
  rfl

/-- Conditions on groups by what their shapes say, their connectors apart. -/
theorem map_shape_having (b : Block) :
    b.shape.having.map ({ · with connector := .and }) =
      b.having.map fun h => ⟨h.function, h.column, h.operator, h.value, .and⟩ := by
  have hkeeps : ∀ hs : List HavingShape,
      (updateLast ({ · with connector := .and }) hs).map ({ · with connector := .and }) =
        hs.map ({ · with connector := .and }) :=
    map_updateLast fun _ => rfl
  have hhaving : b.shape.having = updateLast ({ · with connector := .and })
      (b.having.map fun h => ⟨h.function, h.column, h.operator, h.value, h.connector⟩) := by
    rw [shape_eq]
    rfl
  rw [hhaving, hkeeps, List.map_map]
  rfl

theorem shape_groupBy (b : Block) : b.shape.groupBy = b.groupBy.map (·.column) := by
  rw [shape_eq]
  rfl

theorem shape_orderBy (b : Block) :
    b.shape.orderBy = b.orderBy.map fun o => (o.column, o.direction) := by
  rw [shape_eq]
  rfl

theorem shape_limit (b : Block) : b.shape.limit = b.limit.map Limit.sql := by
  rw [shape_eq]
  rfl

/-- Each filter of a block is matched by one of each block of its shape. -/
theorem exists_filter_of_shape (h : b.shape = b'.shape) {f : Filter} (hf : f ∈ b.filters) :
    ∃ f' ∈ b'.filters, ({ f'.shape (b'.subqueries.map shaped) with connector := .and } :
      FilterShapeOf BlockShape) = { f.shape (b.subqueries.map shaped) with connector := .and } := by
  have hmaps := map_shape_filters b
  rw [h, map_shape_filters b'] at hmaps
  exact List.mem_map.1 (hmaps ▸ List.mem_map_of_mem hf)

theorem find?_shaped (subs : List Subquery) (id : EntityId) :
    (subs.map shaped).find? (·.id = id) = (subs.find? (·.id = id)).map shaped := by
  rw [List.find?_map]
  rfl

/-- What the shape of a filter says of its operand. -/
theorem shape_subquery (b : Block) (f : Filter) :
    (f.shape (b.subqueries.map shaped)).subquery =
      (f.operand.subquery?.bind b.subquery?).map (·.block.shape) := by
  cases hoperand : f.operand with
  | value v => simp [Filter.shape, hoperand, Operand.subquery?]
  | subquery id =>
    simp only [Filter.shape, hoperand, Operand.subquery?, Option.bind_some, find?_shaped,
      Option.map_map]
    rfl

theorem mem_shape_subqueries {b : Block} {x : SubqueryShapeOf BlockShape} :
    x ∈ b.shape.subqueries ↔
      ∃ s ∈ b.subqueries, s.role ≠ .whereClause ∧ ⟨s.role, s.aliasName, s.block.shape⟩ = x := by
  rw [shape_eq]
  simp only [shapeWith, subqueryShapes, List.mem_append, List.mem_map, List.mem_filter,
    decide_eq_true_eq]
  constructor
  · rintro (⟨_, ⟨⟨s, hs, rfl⟩, hrole⟩, rfl⟩ | ⟨_, ⟨⟨s, hs, rfl⟩, hrole⟩, rfl⟩)
    · exact ⟨s, hs, by rw [show s.role = .fromClause from hrole]; decide, rfl⟩
    · exact ⟨s, hs, by rw [show s.role = .selectList from hrole]; decide, rfl⟩
  · rintro ⟨s, hs, hrole, rfl⟩
    cases hs' : s.role with
    | whereClause => exact absurd hs' hrole
    | fromClause => exact .inl ⟨shaped s, ⟨⟨s, hs, rfl⟩, hs'⟩, by rw [← hs']; rfl⟩
    | selectList => exact .inr ⟨shaped s, ⟨⟨s, hs, rfl⟩, hs'⟩, by rw [← hs']; rfl⟩

/-- Each nested query that a block shows is matched by one that each block of its shape shows. -/
theorem exists_nested_of_shape (h : b.shape = b'.shape) {s : Subquery} (hs : b.DisplaysNested s) :
    ∃ s', b'.DisplaysNested s' ∧ s'.block.shape = s.block.shape := by
  obtain ⟨hmem, hrole | ⟨f, hf, hlinked⟩⟩ := hs
  · obtain ⟨s', hs', hrole', heq⟩ := mem_shape_subqueries.1
      (h ▸ mem_shape_subqueries.2 ⟨s, hmem, hrole, rfl⟩)
    exact ⟨s', ⟨hs', .inl hrole'⟩, congrArg SubqueryShapeOf.block heq⟩
  · obtain ⟨f', hf', heq⟩ := exists_filter_of_shape h hf
    have hoperands : (f'.operand.subquery?.bind b'.subquery?).map (·.block.shape) =
        some s.block.shape := by
      have := congrArg FilterShapeOf.subquery heq
      simp only [shape_subquery, hlinked] at this
      exact this
    obtain ⟨s', hs', hshape⟩ := Option.map_eq_some_iff.1 hoperands
    obtain ⟨id, -, hfind⟩ := Option.bind_eq_some_iff.1 hs'
    exact ⟨s', ⟨List.mem_of_find?_eq_some hfind, .inr ⟨f', hf', hs'⟩⟩, hshape⟩

/-- Each block that a block shows is matched by one that each block of its shape shows. -/
theorem Displays.exists_of_shape {x : Block} (hx : b.Displays x) (h : b.shape = b'.shape) :
    ∃ x', b'.Displays x' ∧ x.shape = x'.shape := by
  induction hx generalizing b' with
  | self b => exact ⟨b', .self b', h⟩
  | nested hs _ ih =>
    obtain ⟨s', hs', hshape⟩ := exists_nested_of_shape h hs
    obtain ⟨x', hx', hsame⟩ := ih hshape.symm
    exact ⟨x', .nested hs' hx', hsame⟩

theorem mem_shape_tables {b : Block} {name : String} :
    name ∈ b.shape.tables ↔ ∃ t ∈ b.tables, t.name = name := by
  have htables : b.shape.tables = textSet (b.tables.map (·.name)) := by rw [shape_eq]; rfl
  rw [htables, textSet, mem_setByKey fun _ _ h => (List.cons.inj h).1, List.mem_map]

theorem mem_shape_columns {b : Block} {x : String} :
    x ∈ b.shape.columns ↔ ∃ t ∈ b.tables, ∃ c ∈ t.selected, t.aggregates.find? c = none ∧
      Sql.columnRef t.name c = x := by
  have hcolumns : b.shape.columns = textSet (b.tables.flatMap Table.plainColumns) := by
    rw [shape_eq]
    rfl
  rw [hcolumns, textSet, mem_setByKey fun _ _ h => (List.cons.inj h).1, List.mem_flatMap]
  simp only [Table.mem_plainColumns]

end Block

/-! ## Criteria on blocks of one shape -/

theorem Join.names_of_shape? {b : Block} {j : Join} {s : JoinShape} (h : j.shape? b = some s) :
    b.tableName j.sourceTable = s.source ∧ b.tableName j.targetTable = s.target := by
  unfold shape? at h
  split at h
  · rename_i source target hsource htarget
    cases h
    simp [Block.tableName, hsource, htarget]
  · cases h

theorem Join.kind_of_shape? {b : Block} {j : Join} {s : JoinShape} (h : j.shape? b = some s) :
    s.kind = j.kind := by
  unfold shape? at h
  split at h
  · cases h
    rfl
  · cases h

namespace Criterion

variable {b b' : Block}

/-- What the shape of a filter says of a written value. -/
theorem value_of_shape {nested nested' : List (SubqueryOf BlockShape)} {f f' : Filter}
    {text : String} (hoperator : f'.operator = f.operator) (hunary : f.operator.isUnary = false)
    (htext : text ≠ "") (hvalue : f.operand = .value text)
    (hshape : (f'.shape nested').value = (f.shape nested).value) : f'.operand = .value text := by
  have hown : (f.shape nested).value = text := by
    simp [Filter.shape, hvalue, hunary, Operand.subquery?, Operand.value?]
  rw [hown] at hshape
  simp only [Filter.shape, hoperator, hunary] at hshape
  cases hoperand : f'.operand with
  | value text' => simpa [hoperand, Operand.subquery?, Operand.value?] using hshape
  | subquery id =>
    rw [hoperand] at hshape
    split at hshape
    · exact absurd hshape.symm htext
    · exact absurd hshape.symm htext

/-- A criterion on the limit reads its written form alone. -/
theorem holdsIn_hasLimit (b : Block) (value : Option String) : (hasLimit value).holdsIn b =
    (b.limit.map Limit.sql).any fun text => value.all fun v => text = Text.trim v := by
  rw [holdsIn, Option.any_map]

/-- The shape of a filter says its column and operator, and its value where it has one. -/
theorem shownIn_filter_of_shape (h : b.shape = b'.shape) {column : String}
    {operator : Option FilterOperator} {value : Option String}
    (hk : (hasFilter column operator value).ShownIn b) :
    (hasFilter column operator value).ShownIn b' := by
  cases value with
  | none =>
    obtain ⟨f, hf, hmeets⟩ := List.any_eq_true.1 hk
    obtain ⟨f', hf', hsame⟩ := Block.exists_filter_of_shape h hf
    refine List.any_eq_true.2 ⟨f', hf', ?_⟩
    rwa [show f'.column = f.column from congrArg FilterShapeOf.column hsame,
      show f'.operator = f.operator from congrArg FilterShapeOf.operator hsame]
  | some value =>
    obtain ⟨f, hf, hcolumn, hoperator, hunary, hvalue, hoperand⟩ := hk
    obtain ⟨f', hf', hsame⟩ := Block.exists_filter_of_shape h hf
    have hcolumn' : f'.column = f.column := congrArg FilterShapeOf.column hsame
    have hoperator' : f'.operator = f.operator := congrArg FilterShapeOf.operator hsame
    have hvalue' := congrArg FilterShapeOf.value hsame
    exact ⟨f', hf', by rwa [hcolumn'], by rwa [hoperator'], by rwa [hoperator'], hvalue,
      value_of_shape hoperator' hunary hvalue hoperand hvalue'⟩

/-- What a block meets by what its shape shows, each block of this shape meets so. -/
theorem ShownIn.of_shape {k : Criterion} (hk : k.ShownIn b) (h : b.shape = b'.shape) :
    k.ShownIn b' := by
  cases k with
  | hasTable table =>
    obtain ⟨t, ht, hname⟩ := List.any_eq_true.1 hk
    obtain ⟨t', ht', hsame⟩ := Block.mem_shape_tables.1 (h ▸ Block.mem_shape_tables.2 ⟨t, ht, rfl⟩)
    exact List.any_eq_true.2 ⟨t', ht', by rwa [hsame]⟩
  | hasColumn table column =>
    obtain ⟨t, ht, hname, c, hc, hcolumn, hplain⟩ := hk
    obtain ⟨t', ht', c', hc', hplain', hsame⟩ :=
      Block.mem_shape_columns.1 (h ▸ Block.mem_shape_columns.2 ⟨t, ht, c, hc, hplain, rfl⟩)
    obtain ⟨htable, rfl⟩ := Sql.columnRef_injective hsame
    exact ⟨t', ht', by rwa [htable], c', hc', hcolumn, hplain'⟩
  | hasJoin left right =>
    obtain ⟨j, hj, s, hs, hends⟩ := hk
    obtain ⟨j', hj', hs'⟩ := Block.mem_shape_joins.1 (h ▸ Block.mem_shape_joins.2 ⟨j, hj, hs⟩)
    exact ⟨j', hj', s, hs', hends⟩
  | hasJoinKind kind =>
    obtain ⟨j, hj, hends, rfl⟩ := hk
    obtain ⟨s, hs⟩ := Option.isSome_iff_exists.1 hends
    obtain ⟨j', hj', hs'⟩ := Block.mem_shape_joins.1 (h ▸ Block.mem_shape_joins.2 ⟨j, hj, hs⟩)
    exact ⟨j', hj', Option.isSome_of_eq_some hs',
      (Join.kind_of_shape? hs').symm.trans (Join.kind_of_shape? hs)⟩
  | hasFilter column operator value => exact shownIn_filter_of_shape h hk
  | hasGrouping column =>
    have hcolumns : b.groupBy.map (·.column) = b'.groupBy.map (·.column) := by
      rw [← Block.shape_groupBy, ← Block.shape_groupBy, h]
    obtain ⟨g, hg, hmeets⟩ := List.any_eq_true.1 hk
    obtain ⟨g', hg', hsame⟩ := List.mem_map.1 (hcolumns ▸ List.mem_map_of_mem hg)
    exact List.any_eq_true.2 ⟨g', hg', by rwa [hsame]⟩
  | hasHaving function column =>
    have hmaps := Block.map_shape_having b
    rw [h, Block.map_shape_having b'] at hmaps
    obtain ⟨x, hx, hmeets⟩ := List.any_eq_true.1 hk
    obtain ⟨x', hx', hsame⟩ := List.mem_map.1 (hmaps ▸ List.mem_map_of_mem hx)
    refine List.any_eq_true.2 ⟨x', hx', ?_⟩
    rwa [show x'.function = x.function from congrArg HavingShape.function hsame,
      show x'.column = x.column from congrArg HavingShape.column hsame]
  | hasSortTerm column direction =>
    have hterms : (b.orderBy.map fun o => (o.column, o.direction)) =
        b'.orderBy.map fun o => (o.column, o.direction) := by
      rw [← Block.shape_orderBy, ← Block.shape_orderBy, h]
    obtain ⟨o, ho, hmeets⟩ := List.any_eq_true.1 hk
    obtain ⟨o', ho', hsame⟩ := List.mem_map.1 (hterms ▸ List.mem_map_of_mem ho)
    refine List.any_eq_true.2 ⟨o', ho', ?_⟩
    rwa [show o'.column = o.column from congrArg Prod.fst hsame,
      show o'.direction = o.direction from congrArg Prod.snd hsame]
  | hasLimit value =>
    have hsql : b.limit.map Limit.sql = b'.limit.map Limit.sql := by
      rw [← Block.shape_limit, ← Block.shape_limit, h]
    have hholds : (hasLimit value).holdsIn b = true := hk
    rw [holdsIn_hasLimit, hsql, ← holdsIn_hasLimit] at hholds
    exact hholds
  | sqlContains keyword => exact trivial

/-- What a block meets by what its shape shows, it meets. -/
theorem ShownIn.holdsIn {k : Criterion} (hk : k.ShownIn b) (hcanvas : ∀ w, k ≠ sqlContains w) :
    k.holdsIn b = true := by
  cases k with
  | hasColumn table column =>
    obtain ⟨t, ht, hname, c, hc, hcolumn, -⟩ := hk
    simp only [Criterion.holdsIn, List.any_eq_true, Bool.and_eq_true]
    exact ⟨t, ht, hname, c, hc, hcolumn⟩
  | hasJoin left right =>
    obtain ⟨j, hj, s, hs, hends⟩ := hk
    obtain ⟨hsource, htarget⟩ := Join.names_of_shape? hs
    simp only [Criterion.holdsIn, List.any_eq_true, Bool.or_eq_true, Bool.and_eq_true]
    exact ⟨j, hj, by rwa [hsource, htarget]⟩
  | hasJoinKind kind =>
    obtain ⟨j, hj, -, hkind⟩ := hk
    exact List.any_eq_true.2 ⟨j, hj, by simpa using hkind⟩
  | hasFilter column operator value =>
    cases value with
    | none => exact hk
    | some value =>
      obtain ⟨f, hf, hcolumn, hoperator, -, -, hoperand⟩ := hk
      simp only [Criterion.holdsIn, List.any_eq_true, Bool.and_eq_true]
      exact ⟨f, hf, ⟨hcolumn, hoperator⟩, by simp [hoperand, Operand.value?]⟩
  | sqlContains keyword => exact absurd rfl (hcanvas keyword)
  | _ => exact hk

end Criterion

/-! ## Criteria on canvases of one shape -/

theorem Block.Displays.mem_blocks {b x : Block} (h : b.Displays x) : x ∈ b.blocks := by
  induction h with
  | self b => exact b.self_mem_blocks
  | nested hs _ ih => exact Block.mem_blocks.2 (.inr ⟨_, hs.1, ih⟩)

namespace Canvas

variable {c c' : Canvas}

theorem Displays.mem_blocks {b : Block} (h : c.Displays b) : b ∈ c.blocks := by
  rcases h with h | ⟨q, hq, -, h⟩
  · exact List.mem_append_left _ h.mem_blocks
  · exact List.mem_append_right _ (List.mem_flatMap.2 ⟨q, hq, h.mem_blocks⟩)

/-- Each block that a canvas shows is matched by one that each canvas of its shape shows. -/
theorem Displays.exists_of_shape {b : Block} (hb : c.Displays b) (h : c.shape = c'.shape) :
    ∃ b', c'.Displays b' ∧ b.shape = b'.shape := by
  rcases hb with hb | ⟨q, hq, hsource, hb⟩
  · obtain ⟨b', hb', hsame⟩ := hb.exists_of_shape (congrArg CanvasShape.root h)
    exact ⟨b', .inl hb', hsame⟩
  · have hctes : (c.ctes.filter (!·.block.hasNoSource)).map (fun q => (q.name, q.block.shape)) =
        (c'.ctes.filter (!·.block.hasNoSource)).map fun q => (q.name, q.block.shape) :=
      congrArg CanvasShape.ctes h
    have hmem : (q.name, q.block.shape) ∈
        (c'.ctes.filter (!·.block.hasNoSource)).map fun q => (q.name, q.block.shape) :=
      hctes ▸ List.mem_map.2 ⟨q, List.mem_filter.2 ⟨hq, by simpa using hsource⟩, rfl⟩
    obtain ⟨q', hq', hsame⟩ := List.mem_map.1 hmem
    obtain ⟨hin, hsource'⟩ := List.mem_filter.1 hq'
    obtain ⟨b', hb', hshape⟩ := hb.exists_of_shape (congrArg Prod.snd hsame).symm
    exact ⟨b', .inr ⟨q', hin, by simpa using hsource', hb'⟩, hshape⟩

end Canvas

namespace Criterion

variable {c c' : Canvas} {k : Criterion}

/-- What is met by something that the shape of a canvas shows is met in every canvas of the
shape. -/
theorem holds_of_shown {sql : String} (hk : ∃ b, c.Displays b ∧ k.ShownIn b)
    (hcanvas : ∀ w, k ≠ sqlContains w) : k.holds c sql = true := by
  obtain ⟨b, hb, hshown⟩ := hk
  have hblock : (c.blocks.any fun b => k.holdsIn b) = true :=
    List.any_eq_true.2 ⟨b, hb.mem_blocks, hshown.holdsIn hcanvas⟩
  cases k with
  | sqlContains w => exact absurd rfl (hcanvas w)
  | _ => exact hblock

theorem shown_iff_of_shape (h : c.shape = c'.shape) :
    (∃ b, c.Displays b ∧ k.ShownIn b) ↔ ∃ b, c'.Displays b ∧ k.ShownIn b := by
  have hinto {c c' : Canvas} (h : c.shape = c'.shape) (hk : ∃ b, c.Displays b ∧ k.ShownIn b) :
      ∃ b, c'.Displays b ∧ k.ShownIn b := by
    obtain ⟨b, hb, hshown⟩ := hk
    obtain ⟨b', hb', hsame⟩ := hb.exists_of_shape h
    exact ⟨b', hb', hshown.of_shape hsame⟩
  exact ⟨hinto h, hinto h.symm⟩

/-- The criterion is on things that the shape of a block shows in full: on names, conditions without
their values, grouping, sorting and the limit. -/
def IsOnShape : Criterion → Prop
  | hasColumn .. | hasJoin .. | hasJoinKind _ | hasFilter _ _ (some _) => False
  | _ => True

theorem IsOnShape.shownIn (hk : k.IsOnShape) {b : Block} (h : k.holdsIn b = true) :
    k.ShownIn b := by
  cases k with
  | hasColumn | hasJoin | hasJoinKind => exact absurd hk id
  | hasFilter column operator value =>
    cases value with
    | none => exact h
    | some value => exact absurd hk id
  | sqlContains keyword => exact trivial
  | _ => exact h

/-- Where all blocks are shown, such a criterion is met by what the shape shows. -/
theorem IsOnShape.not_metAside (hk : k.IsOnShape) (hall : ∀ b ∈ c.blocks, c.Displays b)
    (sql : String) : ¬k.MetAside c sql := by
  rintro ⟨hholds, hnone⟩
  have hblock : (∃ w, k = sqlContains w) ∨ (c.blocks.any fun b => k.holdsIn b) = true := by
    cases k with
    | sqlContains w => exact .inl ⟨w, rfl⟩
    | _ => exact .inr hholds
  rcases hblock with ⟨w, rfl⟩ | hblock
  · exact hnone ⟨c.root, .inl (.self _), trivial⟩
  · obtain ⟨b, hb, hmeets⟩ := List.any_eq_true.1 hblock
    exact hnone ⟨b, hall b hb, hk.shownIn hmeets⟩

theorem holds_iff_metAside (h : c.shape = c'.shape) (k : Criterion) (sql : String) :
    k.holds c sql = k.holds c' sql ↔ (k.MetAside c sql ↔ k.MetAside c' sql) := by
  by_cases hw : ∃ w, k = sqlContains w
  · obtain ⟨w, rfl⟩ := hw
    have hroot (c : Canvas) : ¬(sqlContains w).MetAside c sql := fun haside =>
      haside.2 ⟨c.root, .inl (.self _), trivial⟩
    exact iff_of_true rfl (iff_of_false (hroot c) (hroot c'))
  · have hcanvas (w : String) : k ≠ sqlContains w := fun heq => hw ⟨w, heq⟩
    by_cases hshown : ∃ b, c.Displays b ∧ k.ShownIn b
    · have hshown' := (shown_iff_of_shape h).1 hshown
      rw [holds_of_shown hshown hcanvas, holds_of_shown hshown' hcanvas]
      exact iff_of_true rfl (iff_of_false (fun haside => haside.2 hshown)
        fun haside => haside.2 hshown')
    · have hshown' : ¬∃ b, c'.Displays b ∧ k.ShownIn b :=
        fun hin => hshown ((shown_iff_of_shape h).2 hin)
      rw [MetAside, MetAside, and_iff_left hshown, and_iff_left hshown', Bool.eq_iff_iff]

/-- **Canvases of one shape meet a criterion both or neither, but for what their shape leaves out.**
They differ exactly if one of them, and not the other, meets the criterion by nothing that the shape
shows.  This cannot be where the shape shows all blocks of both and the criterion is not on chosen
columns, joins or values. -/
theorem holds_of_same_shape (h : c.shape = c'.shape) (k : Criterion) (sql : String) :
    (k.holds c sql = k.holds c' sql ↔ (k.MetAside c sql ↔ k.MetAside c' sql)) ∧
      ((∀ b ∈ c.blocks, c.Displays b) → (∀ b ∈ c'.blocks, c'.Displays b) → k.IsOnShape →
        k.holds c sql = k.holds c' sql) :=
  ⟨holds_iff_metAside h k sql, fun hall hall' hk => (holds_iff_metAside h k sql).2
    (iff_of_false (hk.not_metAside hall sql) (hk.not_metAside hall' sql))⟩

/-! ## A nested query that no filter compares with -/

/-- A canvas with one table. -/
def singleTable : Canvas :=
  { ctes := []
    root := { Block.empty with tables := [.create (EntityId.minted 0) "t" [] default] } }

/-- The same canvas with a nested query in its `WHERE` clause that no filter compares with. -/
def unlinkedNested : Canvas :=
  { singleTable with
    root := { singleTable.root with
      subqueries := [{
        id := EntityId.minted 1, role := .whereClause, aliasName := none, linkedFilter := none
        frame := default
        block := { Block.empty with
          tables := [.create (EntityId.minted 2) "u" [] default] } }] } }

/-- The table of the nested query is found in the drawing, and the query does not say it. -/
theorem holds_unlinkedNested :
    unlinkedNested.shape = singleTable.shape ∧
      Sql.render default unlinkedNested = Sql.render default singleTable ∧
      (hasTable "u").holds unlinkedNested (Sql.render default unlinkedNested) = true ∧
      (hasTable "u").holds singleTable (Sql.render default singleTable) = false := by
  decide +kernel

/-- On the table of the root the two canvases agree.  That of the nested query is met aside. -/
theorem holds_of_same_shape_unlinkedNested :
    unlinkedNested.shape = singleTable.shape ∧
      (hasTable "t").holds unlinkedNested "" = (hasTable "t").holds singleTable "" ∧
      ¬(hasTable "t").MetAside unlinkedNested "" ∧
      (hasTable "u").MetAside unlinkedNested "" ∧ ¬(hasTable "u").MetAside singleTable "" := by
  have hshape : unlinkedNested.shape = singleTable.shape := by decide +kernel
  have hroot : (hasTable "t").ShownIn unlinkedNested.root := by
    change (hasTable "t").holdsIn unlinkedNested.root = true
    decide +kernel
  have hnot : ¬(hasTable "t").MetAside unlinkedNested "" := fun haside =>
    haside.2 ⟨_, .inl (.self _), hroot⟩
  have hnot' : ¬(hasTable "u").MetAside singleTable "" := fun haside =>
    absurd haside.1 (by decide +kernel)
  have hdiffer : (hasTable "u").holds unlinkedNested "" ≠ (hasTable "u").holds singleTable "" := by
    decide +kernel
  refine ⟨hshape, by decide +kernel, hnot, ?_, hnot'⟩
  by_contra hnot''
  exact hdiffer ((holds_of_same_shape hshape (hasTable "u") "").1.2 (iff_of_false hnot'' hnot'))

end Criterion

end QueryCanvas
