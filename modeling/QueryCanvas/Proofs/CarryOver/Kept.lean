import QueryCanvas.Proofs.CarryOver.Shape

/-!
# When a canvas says the same after it took over identities

A tree of blocks says the same exactly if in each block of it that takes over from another one the
aggregates that go back are in place.  A canvas says the same exactly if its root does, and each
named query that is written.
-/

set_option autoImplicit false

namespace QueryCanvas

namespace Block

/-- The aggregates that go back are in place, in the block and in each nested query that takes over
from one before. -/
inductive Kept : Block → Block → Prop
  | mk {old b : Block} (inPlace : AggregatesInPlace old b)
      (nested : ∀ p ∈ paired old.subqueries b.subqueries, ∀ o, p.2 = some o →
        Kept o.block p.1.block) : Kept old b

theorem kept_iff {old b : Block} :
    Kept old b ↔ AggregatesInPlace old b ∧
      ∀ p ∈ paired old.subqueries b.subqueries, ∀ o, p.2 = some o → Kept o.block p.1.block := by
  constructor
  · rintro ⟨inPlace, nested⟩
    exact ⟨inPlace, nested⟩
  · rintro ⟨inPlace, nested⟩
    exact .mk inPlace nested

variable {n n' : Nat} {ctes : List EntityId}

/-- A tree of blocks says the same after it took over from another one exactly if the aggregates
that went back are in place throughout. -/
theorem shape_carryOver_iff_kept : ∀ b old : Block, b.Everywhere (Drawn n n' ctes) →
    old.Everywhere (Identified n) → ((old.carryOver b).shape = b.shape ↔ Kept old b) := by
  refine tree_induction fun b ih old hb hold => ?_
  obtain ⟨hself, hbelow⟩ := everywhere_iff.1 hb
  obtain ⟨hself', hbelow'⟩ := everywhere_iff.1 hold
  rw [shape_carryOver_iff hself hself', kept_iff]
  refine and_congr_right fun _ => forall_congr' fun p => forall_congr' fun hp => ?_
  obtain ⟨hs, ho⟩ := mem_paired hp
  obtain ⟨s, o⟩ := p
  cases o with
  | none => exact ⟨nofun, fun _ => rfl⟩
  | some o =>
    have hsame := ih s hs o.block (hbelow s hs) (hbelow' o (ho o rfl))
    refine ⟨fun h => ?_, fun h => hsame.2 (h o rfl)⟩
    rintro _ ⟨⟩
    exact hsame.1 h

/-! ## Links to named queries -/

/-- A block whose links follow a renaming of the named queries. -/
def relinked (r : Renaming) (b : Block) : Block :=
  { b with tables := b.tables.map fun t => { t with cte := t.cte.map r.apply } }

theorem table?_relinked (r : Renaming) (b : Block) (id : EntityId) :
    (b.relinked r).table? id = (b.table? id).map fun t => { t with cte := t.cte.map r.apply } := by
  rw [table?, relinked, List.find?_map]
  rfl

theorem join_shape?_relinked (r : Renaming) (b : Block) (j : Join) :
    j.shape? (b.relinked r) = j.shape? b := by
  simp only [Join.shape?, table?_relinked]
  cases b.table? j.sourceTable with
  | none => rfl
  | some source => cases b.table? j.targetTable <;> rfl

theorem shapeWith_relinked (r : Renaming) (b : Block) (nested : List (SubqueryOf BlockShape)) :
    (b.relinked r).shapeWith nested = b.shapeWith nested := by
  have hjoins : (b.relinked r).joins.filterMap (Join.shape? (b.relinked r)) =
      b.joins.filterMap (Join.shape? b) :=
    List.filterMap_congr fun j _ => join_shape?_relinked r b j
  rw [shapeWith, shapeWith, hjoins]
  simp only [relinked, List.map_map, List.flatMap_map]
  rfl

/-- Links say nothing. -/
theorem shape_mapBlocks_relinked (r : Renaming) : ∀ b : Block,
    (b.mapBlocks (relinked r)).shape = b.shape := by
  refine tree_induction fun b ih => ?_
  have hnested :
      b.subqueries.map (fun s => shaped { s with block := s.block.mapBlocks (relinked r) }) =
      b.subqueries.map shaped := by
    refine List.map_congr_left fun s hs => ?_
    rw [shaped, ih s hs]
    rfl
  rw [mapBlocks_eq, shape_eq, shapeWith_relinked, shape_eq b]
  show shapeWith _ ((b.subqueries.map _).map shaped) = _
  rw [List.map_map]
  exact congrArg (shapeWith b) hnested

/-! ## Blocks without a source -/

theorem hasNoSource_eq (b : Block) :
    b.hasNoSource = ((b.tables.map (·.name)).isEmpty &&
      (subqueryShapes (b.subqueries.map shaped) .fromClause).isEmpty) := by
  have hrole : (fun s : SubqueryOf BlockShape => decide (s.role = .fromClause)) ∘ shaped =
      fun s => decide (s.role = .fromClause) := rfl
  rw [hasNoSource, subqueriesIn, subqueryShapes, List.isEmpty_map, List.isEmpty_map,
    List.filter_map, List.isEmpty_map, hrole]

/-- A block has a source after it took over from another one exactly if it had one before. -/
theorem hasNoSource_carryOver (old : Block) {b : Block} (hb : b.Drawn n n' ctes) :
    (old.carryOver b).hasNoSource = b.hasNoSource := by
  have hlength := length_subqueryShapes_carryOver old b .fromClause
  have hempty : (subqueryShapes ((old.carryOver b).subqueries.map shaped) .fromClause).isEmpty =
      (subqueryShapes (b.subqueries.map shaped) .fromClause).isEmpty := by
    rw [Bool.eq_iff_iff, List.isEmpty_iff_length_eq_zero, List.isEmpty_iff_length_eq_zero, hlength]
  rw [hasNoSource_eq, hasNoSource_eq b, carryOver_names old hb, hempty]

theorem hasNoSource_mapBlocks_relinked (r : Renaming) (b : Block) :
    (b.mapBlocks (relinked r)).hasNoSource = b.hasNoSource := by
  rw [mapBlocks_eq]
  simp [hasNoSource, subqueriesIn, relinked, List.filter_map, Function.comp_def]

end Block

namespace Canvas

/-- The aggregates that go back are in place in the root, and in each named query that is written
and takes over from one before. -/
structure Kept (old c : Canvas) : Prop where
  root : old.root.Kept c.root
  ctes : ∀ q ∈ c.ctes, q.block.hasNoSource = false →
    ∀ before, old.cteNamed? q.name = some before → before.block.Kept q.block

variable {n n' : Nat} {old c : Canvas}

/-- A named query in place of a new one, with what it takes over and with links that follow. -/
def carriedCte (old c : Canvas) (q : Cte) : Cte :=
  { old.carryCte q with
    block := (old.carryCte q).block.mapBlocks (Block.relinked (cteRenaming old c.ctes)) }

theorem shape_carriedCte_iff (hc : c.Drawn n n') (hold : old.Everywhere (Block.Identified n))
    {q : Cte} (hq : q ∈ c.ctes) :
    (carriedCte old c q).block.shape = q.block.shape ↔
      ∀ before, old.cteNamed? q.name = some before → before.block.Kept q.block := by
  have hshape : (carriedCte old c q).block.shape = (old.carryCte q).block.shape :=
    Block.shape_mapBlocks_relinked _ _
  rw [hshape, carryCte]
  cases hname : old.cteNamed? q.name with
  | none => exact ⟨nofun, fun _ => rfl⟩
  | some before =>
    have hbefore := hold.2 before (List.mem_of_find?_eq_some hname)
    have hiff := Block.shape_carryOver_iff_kept _ _ (hc.blocks.2 q hq) hbefore
    refine ⟨fun h => ?_, fun h => hiff.2 (h before rfl)⟩
    rintro _ ⟨⟩
    exact hiff.1 h

theorem ctes_carryOver (old c : Canvas) :
    (old.carryOver c).ctes = c.ctes.map (carriedCte old c) := by
  show (c.ctes.map _).map _ = _
  rw [List.map_map]
  rfl

theorem carriedCte_name (old c : Canvas) (q : Cte) : (carriedCte old c q).name = q.name := by
  show (old.carryCte q).name = q.name
  unfold carryCte
  split <;> rfl

theorem hasNoSource_carriedCte (hc : c.Drawn n n') {q : Cte} (hq : q ∈ c.ctes) :
    (carriedCte old c q).block.hasNoSource = q.block.hasNoSource := by
  have hsame : (carriedCte old c q).block.hasNoSource = (old.carryCte q).block.hasNoSource :=
    Block.hasNoSource_mapBlocks_relinked _ _
  rw [hsame, carryCte]
  split
  · rfl
  · exact Block.hasNoSource_carryOver _ (Block.everywhere_iff.1 (hc.blocks.2 q hq)).1

/-- A canvas says the same after it took over from another one exactly if the aggregates that went
back are in place throughout. -/
theorem shape_carryOver_iff_kept (hc : c.Drawn n n') (hold : old.Everywhere (Block.Identified n)) :
    (old.carryOver c).shape = c.shape ↔ Kept old c := by
  have hroot : (old.carryOver c).root.shape = c.root.shape ↔ old.root.Kept c.root := by
    have hshape : (old.carryOver c).root.shape = (old.root.carryOver c.root).shape :=
      Block.shape_mapBlocks_relinked _ _
    rw [hshape]
    exact Block.shape_carryOver_iff_kept _ _ hc.blocks.1 hold.1
  have hwritten : (c.ctes.map (carriedCte old c)).filter (!·.block.hasNoSource) =
      (c.ctes.filter (!·.block.hasNoSource)).map (carriedCte old c) := by
    rw [List.filter_map]
    refine congrArg _ (List.filter_congr fun q hq => ?_)
    rw [Function.comp_apply, hasNoSource_carriedCte hc hq]
  rw [shape, shape, CanvasShape.mk.injEq, hroot, ctes_carryOver, hwritten, List.map_map,
    List.map_inj_left]
  simp only [List.mem_filter, Bool.not_eq_true', Function.comp_apply, carriedCte_name,
    Prod.mk.injEq, true_and, and_imp]
  constructor
  · rintro ⟨hsame, hkept⟩
    exact ⟨hkept, fun q hq hsource => (shape_carriedCte_iff hc hold hq).1 (hsame q hq hsource)⟩
  · rintro ⟨hkept, hsame⟩
    exact ⟨fun q hq hsource => (shape_carriedCte_iff hc hold hq).2 (hsame q hq hsource), hkept⟩

end Canvas

end QueryCanvas
