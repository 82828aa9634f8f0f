import QueryCanvas.Proofs.Canvas.Numbered
import QueryCanvas.Proofs.Reading.Drawn

/-!
# New identifiers of what is read

Whatever is read off a query gets the next identifier, so on a canvas that is read off a query no
identifier repeats in a collection of a block, among the named queries, or among the nested queries
of the whole canvas.
-/

set_option autoImplicit false

namespace QueryCanvas

namespace Block

/-- No identifier repeats in a collection of a block of the tree, nor among its nested queries, and
all of them were given out while the counter went from `lo` to `hi`. -/
structure Fresh (lo hi : Nat) (b : Block) : Prop where
  blocks : b.Everywhere (Apart lo hi)
  nested : Serial lo hi b.nestedIds

namespace Fresh

variable {lo n m hi : Nat} {news : List EntityId} {b b' : Block}

theorem empty (n : Nat) : Block.empty.Fresh n n :=
  ⟨everywhere_iff.2 ⟨apart_empty, by simp [Block.empty]⟩, Serial.nil⟩

theorem mono {lo' hi' : Nat} (h : b.Fresh lo hi) (hlo : lo' ≤ lo) (hhi : hi ≤ hi') :
    b.Fresh lo' hi' :=
  ⟨h.blocks.imp fun _ hc => hc.mono hlo hhi, h.nested.mono hlo hhi⟩

/-- What is added later gets other identifiers. -/
theorem grow (h : b.Fresh lo n) (hgrows : Grows news b b') (hnews : Serial n hi news)
    (hlo : lo ≤ n) (hhi : n ≤ hi) : b'.Fresh lo hi := by
  have hself := (everywhere_iff.1 h.blocks).1.grow hgrows hnews hlo hhi
  exact ⟨hgrows.everywhere (fun _ hc => hc.mono (Nat.le_refl lo) hhi) apart_empty hself h.blocks,
    (h.nested.append hnews hlo hhi).subperm hgrows.nestedIds⟩

/-- A nested query is added that was read meanwhile, and filters are that came between. -/
theorem nest {k : Nat} (h : b.Fresh lo n) {q : Subquery} (hq : q.block.Fresh n m) (hlo : lo ≤ n)
    (hm : n ≤ m) (fs : List Filter) (hfs : Serial m k (fs.map (·.id))) (hk : m ≤ k)
    (hid : q.id = EntityId.minted k) :
    Block.Fresh lo (k + 1)
      { b with filters := b.filters ++ fs, subqueries := b.subqueries ++ [q] } := by
  have hblocks := (h.mono (Nat.le_refl lo) hm).blocks
  have hself := (everywhere_iff.1 hblocks).1
  have hfiltered : Apart lo k { b with filters := b.filters ++ fs } := by
    refine hself.grow { Grows.refl _ b with filters := ?_ } hfs (Nat.le_trans hlo hm) hk
    rw [List.map_append]
  have hlater : ∀ c : Block, c.Apart lo m → c.Apart lo (k + 1) :=
    fun c hc => hc.mono (Nat.le_refl lo) (Nat.le_succ_of_le hk)
  refine ⟨(hblocks.imp hlater).push ((hq.mono hlo (Nat.le_refl m)).blocks.imp hlater) ?_ rfl, ?_⟩
  · exact (hfiltered.mono (Nat.le_refl lo) (Nat.le_succ k)).withNested _
  · have hserial := ((h.nested.append hq.nested hlo hm).mono (Nat.le_refl lo) hk).push
      (Nat.le_trans hlo (Nat.le_trans hm hk))
    rw [← hid, List.append_assoc] at hserial
    refine hserial.subperm ((nestedIds_perm _).trans ?_).subperm
    show List.Perm (((b.subqueries ++ [q]).map (·.node)).flatMap nodeIds) _
    rw [List.map_append, List.flatMap_append]
    refine b.nestedIds_perm.symm.append ?_
    simp only [List.map_singleton, List.flatMap_singleton]
    exact (List.perm_append_singleton q.id q.block.nestedIds).symm

end Fresh

end Block

namespace Sql

open Block

/-- No identifier repeats in a block that is read off a query. -/
theorem Scope.Reaches.fresh {s : Scope} {lo n : Nat} {b : Block} (h : s.Reaches lo n b) :
    b.Fresh lo n := by
  induction h with
  | empty n => exact Fresh.empty n
  | @table lo n b h t hbox hnew ih =>
    exact ih.grow (grows_addTable b hbox.drawn.1) (Serial.single n) h.le (Nat.le_succ n)
  | @join lo n b h j hid ih =>
    exact ih.grow (grows_addJoin b hid) (Serial.single n) h.le (Nat.le_succ n)
  | @choose lo n b h id columns ih =>
    refine ih.grow (grows_updateTable b id fun t => ?_) Serial.nil h.le (Nat.le_refl n)
    obtain ⟨selected, heq⟩ := exists_foldl_select columns t
    rw [heq]
    exact ⟨rfl, rfl⟩
  | @limit lo n b h e value hvalue ih =>
    exact ih.grow { Grows.refl [] b with } Serial.nil h.le (Nat.le_refl n)
  | @aggregate lo n b h a hid ih =>
    exact ih.grow { Grows.refl _ b with aggregates := hid ▸ keys_push a } (Serial.single n) h.le
      (Nat.le_succ n)
  | @filter lo n b h f hid hvalue ih =>
    exact ih.grow { Grows.refl _ b with filters := hid ▸ keys_push f } (Serial.single n) h.le
      (Nat.le_succ n)
  | @grouping lo n b h g hid ih =>
    exact ih.grow { Grows.refl _ b with groupBy := hid ▸ keys_push g } (Serial.single n) h.le
      (Nat.le_succ n)
  | @having lo n b h c hid ih =>
    exact ih.grow { Grows.refl _ b with having := hid ▸ keys_push c } (Serial.single n) h.le
      (Nat.le_succ n)
  | @sortTerm lo n b h t hid ih =>
    exact ih.grow { Grows.refl _ b with orderBy := hid ▸ keys_push t } (Serial.single n) h.le
      (Nat.le_succ n)
  | @nest lo n m b h q hinner hid hrole hlink ih ihinner =>
    have hnest := ih.nest ihinner h.le hinner.le [] Serial.nil (Nat.le_refl m) hid
    rwa [List.append_nil] at hnest
  | @compare lo n m b h q hinner f hfilter hid hrole hoperand hlink ih ihinner =>
    have hfs : Serial m (m + 1) [f.id] := hfilter ▸ Serial.single m
    exact ih.nest ihinner h.le hinner.le [f] hfs (Nat.le_succ m) hid

/-- What is read off a query is well drawn, and no identifier repeats in it. -/
theorem Scope.Reaches.drawn_apart {s : Scope} {lo n : Nat} {b : Block} (h : s.Reaches lo n b) :
    b.Everywhere fun c => c.Drawn lo n (s.ctes.map (·.id)) ∧ c.Apart lo n :=
  fun c hc => ⟨h.drawn c hc, h.fresh.blocks c hc⟩

/-- No identifier repeats among the nested queries in named queries that are read, nor in a
collection of one of their blocks. -/
structure CtesFresh (lo n : Nat) (ctes : List Cte) : Prop where
  blocks : ∀ q ∈ ctes, q.block.Everywhere (Apart lo n)
  nested : Serial lo n (ctes.flatMap (·.block.nestedIds))

theorem CtesReached.fresh {catalog : Catalog} {lo n : Nat} {ctes : List Cte}
    (h : CtesReached catalog lo n ctes) : CtesFresh lo n ctes := by
  induction h with
  | nil => exact ⟨by simp, Serial.nil⟩
  | @push n m known h q hnew hblock hid ih =>
    have hlater : ∀ c : Block, c.Apart lo n → c.Apart lo (m + 1) :=
      fun c hc => hc.mono (Nat.le_refl lo) (Nat.le_succ_of_le hblock.le)
    refine ⟨fun r hr => ?_, ?_⟩
    · rcases List.mem_append.1 hr with hr | hr
      · exact (ih.blocks r hr).imp hlater
      · rw [List.mem_singleton.1 hr]
        exact (hblock.fresh.mono h.le (Nat.le_succ m)).blocks
    · rw [List.flatMap_append, List.flatMap_singleton]
      exact (ih.nested.append hblock.fresh.nested h.le hblock.le).mono (Nat.le_refl lo)
        (Nat.le_succ m)

end Sql

/-- No identifier repeats in a collection of a block of the canvas, nor among its named queries, nor
among all its nested queries, and all were given out while the counter went from `lo` to `hi`. -/
structure Canvas.Fresh (lo hi : Nat) (c : Canvas) : Prop where
  blocks : c.Everywhere (Block.Apart lo hi)
  cteIds : Serial lo hi c.cteIds
  nestedIds : Serial lo hi c.nestedIds

/-- No identifier repeats on a canvas that is read off a query. -/
theorem Sql.CanvasReached.fresh {catalog : Catalog} {lo n : Nat} {c : Canvas}
    (h : CanvasReached catalog lo n c) : c.Fresh lo n := by
  have hcteIds := h.drawn.cteIds
  obtain ⟨m, hctes, hroot⟩ := h
  have hknown := hctes.fresh
  have hlater : ∀ b : Block, b.Apart lo m → b.Apart lo n :=
    fun b hb => hb.mono (Nat.le_refl lo) hroot.le
  refine ⟨⟨(hroot.fresh.mono hctes.le (Nat.le_refl n)).blocks, fun q hq => ?_⟩, hcteIds, ?_⟩
  · exact (hknown.blocks q hq).imp hlater
  · rw [Canvas.nestedIds_eq]
    refine (hknown.nested.append hroot.fresh.nested hctes.le hroot.le).subperm ?_
    exact List.perm_append_comm.subperm

theorem Sql.CanvasReached.drawn_apart {catalog : Catalog} {lo n : Nat} {c : Canvas}
    (h : CanvasReached catalog lo n c) :
    c.Everywhere fun b => b.Drawn lo n c.cteIds ∧ b.Apart lo n :=
  Canvas.everywhere_iff_blocks.2 fun b hb => ⟨Canvas.everywhere_iff_blocks.1 h.drawn.blocks b hb,
    Canvas.everywhere_iff_blocks.1 h.fresh.blocks b hb⟩

end QueryCanvas
