import QueryCanvas.Proofs.Canvas.Tree
import QueryCanvas.Proofs.Reading.Sources

/-!
# The levels of a query

A query and the queries nested in it are its levels, and so are its named queries.  The blocks of
the canvas that is read off a query correspond to its levels, in the same order: each block depicts
the clauses of its level.
-/

set_option autoImplicit false

namespace QueryCanvas.Sql

/-! ## Nested queries at any depth -/

mutual

/-- The clauses of a query, followed by those of all queries nested in it from which a block is
read. -/
def Query.levels : Query → List Clauses
  | .mk _ _ (.select items sources condition groupBy having _) orderBy limit _ =>
    { items, sources, condition, groupBy, having, orderBy, limit } ::
      (levelsOfSources sources ++ levelsOfItems items ++ levelsOfCondition condition)
  | .mk _ _ (.other _ _) _ _ _ => []

def levelsOfSources : List FromPart → List Clauses
  | [] => []
  | .mk source joins :: rest => source.levels ++ levelsOfJoins joins ++ levelsOfSources rest

def levelsOfJoins : List JoinClause → List Clauses
  | [] => []
  | .mk _ _ source _ :: rest => source.levels ++ levelsOfJoins rest

/-- The levels of the nested query that a source is. -/
def Source.levels : Source → List Clauses
  | .derived _ q _ => q.levels
  | _ => []

def levelsOfItems : List SelectItem → List Clauses
  | [] => []
  | item :: rest => item.levels ++ levelsOfItems rest

/-- The levels of the nested query that a result is. -/
def SelectItem.levels : SelectItem → List Clauses
  | .expr (.subquery q) _ => q.levels
  | _ => []

def levelsOfCondition : Option Expr → List Clauses
  | some e => e.levels
  | none => []

/-- The levels of the nested queries that conditions compare with. -/
def Expr.levels : Expr → List Clauses
  | .binary left .and right => left.levels ++ right.levels
  | .binary left .or right => left.levels ++ right.levels
  | .binary _ _ (.subquery q) => q.levels
  | .inQuery _ _ q => q.levels
  | _ => []

end

/-- The query of a named query. -/
def CtePart.query : CtePart → Query
  | .mk _ _ q _ => q

/-- The levels of a query, and those of its named queries. -/
def Query.allLevels : Query → List Clauses
  | .mk recursive ctes body orderBy limit x =>
    (Query.mk recursive ctes body orderBy limit x).levels ++ ctes.flatMap (·.query.levels)

/-- The nested queries directly in the clauses from which blocks are read. -/
def Clauses.nestedQueries (k : Clauses) : List Query :=
  k.allSources.filterMap Source.nestedQuery? ++ k.laterQueries

/-! ### The levels below a query -/

theorem source_levels (source : Source) :
    source.levels = source.nestedQuery?.toList.flatMap Query.levels := by
  cases source <;> simp [Source.levels, Source.nestedQuery?]

theorem levelsOfJoins_eq (joins : List JoinClause) :
    levelsOfJoins joins =
      ((joins.map JoinClause.source).filterMap Source.nestedQuery?).flatMap Query.levels := by
  induction joins with
  | nil => rfl
  | cons j rest ih =>
    obtain ⟨global, op, source, constraint⟩ := j
    rw [levelsOfJoins, ih, source_levels]
    cases hquery : source.nestedQuery? <;> simp [JoinClause.source, hquery]

theorem levelsOfSources_eq (sources : List FromPart) :
    levelsOfSources sources =
      ((sources.flatMap FromPart.sources).filterMap Source.nestedQuery?).flatMap Query.levels := by
  induction sources with
  | nil => rfl
  | cons part rest ih =>
    obtain ⟨source, joins⟩ := part
    rw [levelsOfSources, ih, source_levels, levelsOfJoins_eq]
    cases hquery : source.nestedQuery? <;> simp [FromPart.sources, hquery]

theorem item_levels (item : SelectItem) :
    item.levels = item.nestedQuery?.toList.flatMap Query.levels := by
  cases item with
  | expr e named => cases e <;> simp [SelectItem.levels, SelectItem.nestedQuery?]
  | _ => rfl

theorem levelsOfItems_eq (items : List SelectItem) :
    levelsOfItems items = (items.filterMap SelectItem.nestedQuery?).flatMap Query.levels := by
  induction items with
  | nil => rfl
  | cons item rest ih =>
    rw [levelsOfItems, ih, item_levels]
    cases hquery : item.nestedQuery? <;> simp [hquery]

theorem expr_levels : ∀ (e : Expr) (last : Connector),
    e.levels = ((e.conditions last).filterMap (·.1.nestedQuery?)).flatMap Query.levels
  | .binary left op right, last => by
    cases op with
    | and =>
      rw [Expr.levels, Expr.conditions, expr_levels left .and, expr_levels right last,
        List.filterMap_append, List.flatMap_append]
    | or =>
      rw [Expr.levels, Expr.conditions, expr_levels left .or, expr_levels right last,
        List.filterMap_append, List.flatMap_append]
    | compare c => cases right <;> simp [Expr.levels, Expr.conditions, Expr.nestedQuery?]
    | other text => cases right <;> simp [Expr.levels, Expr.conditions, Expr.nestedQuery?]
  | .inQuery _ _ q, last => by simp [Expr.levels, Expr.conditions, Expr.nestedQuery?]
  | .column _, _ | .number _ _, _ | .text _, _ | .null, _ | .nested _, _ | .subquery _, _
  | .signed _ _, _ | .like _ _ _ _ _ _, _ | .test _ _, _ | .inList _ _ _, _
  | .between _ _ _ _, _ | .call _ _ _ _, _ | .other _, _ => by
    simp [Expr.levels, Expr.conditions, Expr.nestedQuery?]

/-- The levels of a query are its clauses and the levels of the queries directly in them. -/
theorem query_levels {q : Query} {k : Clauses} (h : q.clauses? = some k) :
    q.levels = k :: k.nestedQueries.flatMap Query.levels := by
  obtain ⟨recursive, ctes, body, orderBy, limit, x⟩ := q
  cases body with
  | other form text => cases h
  | select items sources condition groupBy having sx =>
    cases h
    rw [Query.levels, levelsOfSources_eq, levelsOfItems_eq, Clauses.nestedQueries,
      Clauses.laterQueries, List.flatMap_append, List.flatMap_append, Clauses.allSources,
      Clauses.conditions, ← List.append_assoc]
    cases condition with
    | none => rfl
    | some e =>
      rw [levelsOfCondition, expr_levels e .and]
      rfl

/-! ## Blocks depict levels -/

/-- The block is what the clauses are read as: it depicts them with the names that their `FROM`
clause makes known, or it is the empty block of `SELECT NULL`. -/
def Clauses.ReadAs (k : Clauses) (b : Block) : Prop :=
  (b = Block.empty ∧ k = Clauses.null) ∨
    ∃ s d, FromDepicted s Draft.empty k.allSources k.allEqualities d ∧ k.Depicted s d b

variable {s : Scope} {nested : Bool} {q : Query} {n n' : Nat}

/-- A block is read off the clauses of its query, and its nested queries off those directly in
them. -/
theorem readBlock_readAs {b : Block} (h : Gives (readBlock s nested q) n b n') :
    ∃ k, q.clauses? = some k ∧ k.ReadAs b ∧ k.nestedQueries.Forall₂ (ReadOff s) b.subqueries := by
  obtain ⟨k, hk, ⟨rfl, rfl⟩ | ⟨d, hfrom, hdepicted⟩⟩ := readBlock_depicted h
  · exact ⟨_, hk, .inl ⟨rfl, rfl⟩, .nil⟩
  · refine ⟨k, hk, .inr ⟨s, d, hfrom, hdepicted⟩, ?_⟩
    obtain ⟨subs, hsubs, hsources⟩ := hfrom.subqueries
    obtain ⟨subs', hsubs', hlater⟩ := hdepicted.subqueries
    rw [hlater, hsources]
    exact List.rel_append hsubs hsubs'

/-- What holds of every block that is read off a query and of its clauses. -/
def OfReading (R : Clauses → Block → Prop) : Prop :=
  ∀ {s nested q n b n' k}, Gives (readBlock s nested q) n b n' → q.clauses? = some k → R k b

theorem ofReading_readAs : OfReading Clauses.ReadAs := by
  intro s nested q n b n' k h hk
  obtain ⟨k', hk', hread, -⟩ := readBlock_readAs h
  cases hk.symm.trans hk'
  exact hread

section OfReading

variable {R : Clauses → Block → Prop} (hR : OfReading R)
include hR

/-- Each block of the tree that is read off a query corresponds to one level of it. -/
theorem readBlock_levels (b : Block) : ∀ {s nested q n n'}, Gives (readBlock s nested q) n b n' →
    q.levels.Forall₂ R b.blocks := by
  induction b using Block.tree_induction with
  | step b ih =>
    intro s nested q n n' h
    obtain ⟨k, hk, -, hnested⟩ := readBlock_readAs h
    rw [query_levels hk, Block.blocks_eq]
    refine .cons (hR h hk) ?_
    clear h
    revert ih hnested
    generalize b.subqueries = subs
    generalize k.nestedQueries = queries
    intro ih hnested
    induction hnested with
    | nil => exact .nil
    | cons hfirst hrest ihrest =>
      obtain ⟨n, n', hfirst⟩ := hfirst
      rw [List.flatMap_cons, List.flatMap_cons]
      exact List.rel_append (ih _ List.mem_cons_self hfirst)
        (ihrest fun sub hsub => ih sub (List.mem_cons_of_mem _ hsub))

theorem readCtes_levels (catalog : Catalog) : ∀ {parts : List CtePart} {known ctes : List Cte}
    {n n' : Nat}, Gives (readCtes catalog known parts) n ctes n' →
      ∃ more, ctes = known ++ more ∧ (parts.flatMap (·.query.levels)).Forall₂ R
        (more.flatMap (·.block.blocks))
  | [], known, ctes, n, n', h => by
    obtain ⟨rfl, -⟩ := Gives.pure_iff.1 h
    exact ⟨[], by simp, .nil⟩
  | .mk named materialized q source :: rest, known, ctes, n, n', h => by
    simp only [readCtes, Gives.guard_iff, Gives.bind_iff] at h
    obtain ⟨-, -, b, n₁, hblock, id, n₂, -, hrest⟩ := h
    obtain ⟨more, rfl, hmore⟩ := readCtes_levels catalog hrest
    refine ⟨_ :: more, List.append_assoc _ [_] more, ?_⟩
    exact List.rel_append (readBlock_levels hR b hblock) hmore

/-- Each block of the canvas that is read off a query corresponds to one level of it. -/
theorem readCanvas_levels_of {catalog : Catalog} {c : Canvas}
    (h : Gives (readCanvas catalog q) n c n') : q.allLevels.Forall₂ R c.blocks := by
  obtain ⟨recursive, ctes, body, orderBy, limit, x⟩ := q
  simp only [readCanvas, Gives.guard_iff, Gives.bind_iff, Gives.pure_iff] at h
  obtain ⟨-, known, n₁, hctes, root, n₂, hroot, rfl, rfl⟩ := h
  obtain ⟨more, hmore, hlevels⟩ := readCtes_levels hR catalog hctes
  rw [List.nil_append] at hmore
  subst hmore
  exact List.rel_append (readBlock_levels hR root hroot) hlevels

end OfReading

/-- Each block of the canvas that is read off a query depicts one level of it. -/
theorem readCanvas_levels {catalog : Catalog} {c : Canvas}
    (h : Gives (readCanvas catalog q) n c n') : q.allLevels.Forall₂ Clauses.ReadAs c.blocks :=
  readCanvas_levels_of ofReading_readAs h

/-! ## Readings of fixed texts -/

/-- A text is a query, and what is said of its levels and of its canvas holds. -/
def readsAs (text : String) (p : List Clauses → Bool) (r : Canvas → Bool) : Bool :=
  (Query.parse .generic text).toOption.any fun q =>
    p q.allLevels && ((readCanvas .empty q).run 0).1.toOption.any r

theorem exists_of_readsAs (text : String) {p : List Clauses → Bool} {r : Canvas → Bool}
    (h : readsAs text p r = true) : ∃ q c n', Query.parse .generic text = .ok q ∧
      Gives (readText .generic .empty text) 0 c n' ∧ p q.allLevels ∧ r c := by
  unfold readsAs at h
  cases hq : Query.parse .generic text with
  | error e =>
    rw [hq] at h
    cases h
  | ok q =>
    rw [hq] at h
    obtain ⟨hp, hr⟩ := Bool.and_eq_true _ _ ▸ h
    rcases hrun : (readCanvas .empty q).run 0 with ⟨_ | c, n'⟩
    · rw [hrun] at hr
      cases hr
    · rw [hrun] at hr
      exact ⟨q, c, n', rfl, gives_readText.2 ⟨q, hq, hrun⟩, hp, hr⟩

end QueryCanvas.Sql
