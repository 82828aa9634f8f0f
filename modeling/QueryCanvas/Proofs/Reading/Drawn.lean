import QueryCanvas.Proofs.Canvas.Edits
import QueryCanvas.Proofs.Reading.Reached

/-!
# What is read off a query is well formed

A block that is read off a query has new identifiers, all different.  Its tables have different
names in any case and no aggregates around their columns, its joins and links lead to what is
there, and each nested query in the `WHERE` clause is the operand of a filter.  The same holds of
all blocks nested in it.
-/

set_option autoImplicit false

namespace QueryCanvas

/-- What holds of every block that is read off a query while the counter goes from `lo` to `hi`,
if the named queries `ctes` are known. -/
structure Block.Drawn (lo hi : Nat) (ctes : List EntityId) (b : Block) : Prop extends
    b.Anchored lo hi ctes where
  /-- Tables have different names. -/
  names : (b.tables.map (·.name)).Pairwise fun name name' => ¬Text.sameName name name'
  plain : ∀ t ∈ b.tables, t.aggregates = .empty
  nestedIds : Serial lo hi (b.subqueries.map (·.id))
  operands : ∀ f ∈ b.filters, ∀ id, f.operand = .subquery id → id ∈ b.subqueries.map (·.id)
  compared : ∀ s ∈ b.subqueries, s.role = .whereClause →
    ∃ f ∈ b.filters, f.operand = .subquery s.id

namespace Block.Drawn

variable {lo hi : Nat} {ctes : List EntityId} {b : Block}

theorem empty : Block.empty.Drawn lo hi ctes :=
  ⟨anchored_empty, List.Pairwise.nil, by simp [Block.empty], Serial.nil, by simp [Block.empty],
    by simp [Block.empty]⟩

theorem mono {lo' hi' : Nat} {ctes' : List EntityId} (h : b.Drawn lo hi ctes) (hlo : lo' ≤ lo)
    (hhi : hi ≤ hi') (hctes : ∀ id ∈ ctes, id ∈ ctes') : b.Drawn lo' hi' ctes' :=
  ⟨h.toAnchored.mono hlo hhi hctes, h.names, h.plain, h.nestedIds.mono hlo hhi, h.operands,
    h.compared⟩

theorem succ {n : Nat} (h : b.Drawn lo n ctes) : b.Drawn lo (n + 1) ctes :=
  h.mono (Nat.le_refl lo) (Nat.le_succ n) fun _ hid => hid

/-- Grouping, sorting, the limit, aggregates and conditions on groups do not matter. -/
theorem congr {b' : Block} (h : b.Drawn lo hi ctes) (hsame : SameDrawing b b')
    (hfilters : b'.filters = b.filters) (hsubs : b'.subqueries = b.subqueries) :
    b'.Drawn lo hi ctes := by
  refine ⟨h.toAnchored.same hsame, ?_, ?_, ?_, ?_, ?_⟩
  · rw [hsame.1]
    exact h.names
  · rw [hsame.1]
    exact h.plain
  · rw [hsubs]
    exact h.nestedIds
  · rw [hsubs, hfilters]
    exact h.operands
  · rw [hsubs, hfilters]
    exact h.compared

/-- A change of a block that adds no nested queries leaves those that are there as they were. -/
theorem everywhere {b' : Block} {hi' : Nat} (h : b.Everywhere (Block.Drawn lo hi ctes))
    (hhi : hi ≤ hi') (hb : b'.Drawn lo hi' ctes) (hsubs : b'.subqueries = b.subqueries) :
    b'.Everywhere (Block.Drawn lo hi' ctes) :=
  (h.imp fun _ hc => hc.mono (Nat.le_refl lo) hhi fun _ hid => hid).change hb hsubs

/-- A new table of a name that no table has. -/
theorem addTable {n : Nat} (h : b.Drawn lo n ctes) (hlo : lo ≤ n) {t : Table}
    (hid : t.id = EntityId.minted n) (hlink : ∀ id, t.cte = some id → id ∈ ctes)
    (hname : ∀ u ∈ b.tables, ¬Text.sameName u.name t.name) (hplain : t.aggregates = .empty) :
    (b.addTable t).Drawn lo (n + 1) ctes := by
  refine ⟨h.toAnchored.addTable hlo hid hlink, ?_, fun u hu => ?_, h.succ.nestedIds, h.operands,
    h.compared⟩
  · show ((b.tables ++ [t]).map (·.name)).Pairwise _
    rw [List.map_append]
    refine List.pairwise_append.2 ⟨h.names, List.pairwise_singleton _ _, fun name hu name' ht => ?_⟩
    obtain ⟨u, hmem, rfl⟩ := List.mem_map.1 hu
    rw [List.mem_singleton.1 ht]
    exact hname u hmem
  · rcases List.mem_append.1 hu with hu | hu
    · exact h.plain u hu
    · rw [List.mem_singleton.1 hu]
      exact hplain

/-- Another choice of columns of one table. -/
theorem choose (h : b.Drawn lo hi ctes) (id : EntityId) {f : Table → Table}
    (hf : ∀ t, ∃ selected, f t = { t with selected }) : (b.updateTable id f).Drawn lo hi ctes := by
  have hkept : ∀ t, t.SameBox (f t) ∧ (f t).name = t.name ∧ (f t).aggregates = t.aggregates := by
    intro t
    obtain ⟨selected, heq⟩ := hf t
    rw [heq]
    exact ⟨⟨rfl, rfl⟩, rfl, rfl⟩
  refine ⟨h.toAnchored.updateTable id fun t => (hkept t).1, ?_, fun t ht => ?_, h.nestedIds,
    h.operands, h.compared⟩
  · have hnames : (b.updateTable id f).tables.map (·.name) = b.tables.map (·.name) :=
      map_updateFirst (fun t => (hkept t).2.1) b.tables
    rw [hnames]
    exact h.names
  · rcases mem_updateFirst ht with ht | ⟨u, hu, -, rfl⟩
    · exact h.plain t ht
    · rw [(hkept u).2.2]
      exact h.plain u hu

theorem addJoin (h : b.Drawn lo hi ctes) (j : Join) : (b.addJoin j).Drawn lo hi ctes := by
  have hanchored := h.toAnchored.addJoin j
  unfold Block.addJoin at hanchored ⊢
  split
  · rename_i hcan
    rw [if_pos hcan] at hanchored
    exact ⟨hanchored, h.names, h.plain, h.nestedIds, h.operands, h.compared⟩
  · exact h

/-- A filter on a written value. -/
theorem addFilter (h : b.Drawn lo hi ctes) {f : Filter} (hvalue : f.operand.subquery? = none) :
    (b.addFilter f).Drawn lo hi ctes := by
  refine ⟨h.toAnchored.same ⟨rfl, rfl⟩, h.names, h.plain, h.nestedIds, fun g hg id hop => ?_,
    fun s hs hrole => ?_⟩
  · rcases List.mem_append.1 hg with hg | hg
    · exact h.operands g hg id hop
    · rw [List.mem_singleton.1 hg] at hop
      rw [hop] at hvalue
      cases hvalue
  · obtain ⟨g, hg, hop⟩ := h.compared s hs hrole
    exact ⟨g, List.mem_append_left _ hg, hop⟩

/-- A new nested query, and with it the filter that compares with it if it stands in the `WHERE`
clause. -/
theorem addNested {n : Nat} (h : b.Drawn lo n ctes) (hlo : lo ≤ n) {s : Subquery}
    (hid : s.id = EntityId.minted n) {fs : List Filter}
    (hfs : ∀ f ∈ fs, f.operand = .subquery s.id)
    (hrole : s.role = .whereClause → fs ≠ []) :
    Block.Drawn lo (n + 1) ctes
      { b with filters := b.filters ++ fs, subqueries := b.subqueries ++ [s] } := by
  have hmap : (b.subqueries ++ [s]).map (·.id) =
      b.subqueries.map (·.id) ++ [EntityId.minted n] := by
    simp [hid]
  refine ⟨h.succ.toAnchored.same ⟨rfl, rfl⟩, h.names, h.plain, ?_, fun f hf id hop => ?_,
    fun r hr hwhere => ?_⟩
  · show Serial lo (n + 1) ((b.subqueries ++ [s]).map (·.id))
    rw [hmap]
    exact h.nestedIds.push hlo
  · show id ∈ (b.subqueries ++ [s]).map (·.id)
    rw [hmap]
    rcases List.mem_append.1 hf with hf | hf
    · exact List.mem_append_left _ (h.operands f hf id hop)
    · have hlink := hfs f hf
      rw [hop, hid] at hlink
      cases hlink
      exact List.mem_append_right _ (List.mem_singleton.2 rfl)
  · rcases List.mem_append.1 hr with hr | hr
    · obtain ⟨f, hf, hop⟩ := h.compared r hr hwhere
      exact ⟨f, List.mem_append_left _ hf, hop⟩
    · obtain rfl := List.mem_singleton.1 hr
      obtain ⟨f, hf⟩ := List.exists_mem_of_ne_nil fs (hrole hwhere)
      exact ⟨f, List.mem_append_right _ hf, hfs f hf⟩

/-- A new nested query whose block was drawn meanwhile. -/
theorem nest {n m : Nat} {q : Subquery} (h : b.Everywhere (Block.Drawn lo n ctes)) (hlo : lo ≤ n)
    (hn : n ≤ m) (hid : q.id = EntityId.minted m) (hq : q.block.Everywhere (Block.Drawn n m ctes))
    (fs : List Filter) (hfs : ∀ f ∈ fs, f.operand = .subquery q.id)
    (hrole : q.role = .whereClause → fs ≠ []) :
    Block.Everywhere (Block.Drawn lo (m + 1) ctes)
      { b with filters := b.filters ++ fs, subqueries := b.subqueries ++ [q] } := by
  have hlater := (everywhere_iff.1 h).1.mono (Nat.le_refl lo) hn fun _ hid => hid
  refine Everywhere.push (b := b) ?_ ?_ (hlater.addNested (Nat.le_trans hlo hn) hid hfs hrole) rfl
  · exact h.imp fun _ hb => hb.mono (Nat.le_refl lo) (Nat.le_succ_of_le hn) fun _ hid => hid
  · exact hq.imp fun _ hb => hb.mono hlo (Nat.le_succ m) fun _ hid => hid

end Block.Drawn

/-! ## Choosing columns -/

theorem exists_select (t : Table) (column : String) :
    ∃ selected, t.select column = { t with selected } := by
  unfold Table.select
  split
  · exact ⟨t.selected, rfl⟩
  · exact ⟨_, rfl⟩

theorem exists_foldl_select (columns : List String) (t : Table) :
    ∃ selected, columns.foldl Table.select t = { t with selected } := by
  induction columns generalizing t with
  | nil => exact ⟨t.selected, rfl⟩
  | cons column rest ih =>
    obtain ⟨selected, heq⟩ := exists_select t column
    obtain ⟨selected', heq'⟩ := ih (t.select column)
    exact ⟨selected', by rw [List.foldl_cons, heq', heq]⟩

namespace Sql

/-- The identifiers of the named queries that a query can read from. -/
def Scope.cteIds (s : Scope) : List EntityId := s.ctes.map (·.id)

variable {s : Scope}

/-! ## Blocks -/

/-- What a source is drawn as has the identifier it is given and no aggregates, and is linked to
known named queries only. -/
theorem Scope.Box.drawn {id : EntityId} {t : Table} (h : s.Box id t) :
    t.id = id ∧ (∀ id', t.cte = some id' → id' ∈ s.cteIds) ∧ t.aggregates = .empty := by
  cases h with
  | table name => exact ⟨rfl, by rintro _ ⟨⟩, rfl⟩
  | cte hq =>
    refine ⟨rfl, ?_, rfl⟩
    rintro _ ⟨⟩
    exact List.mem_map_of_mem hq

/-- Every block that reading can come to is well formed, with all that is nested in it. -/
theorem Scope.Reaches.drawn {lo n : Nat} {b : Block} (h : s.Reaches lo n b) :
    b.Everywhere (Block.Drawn lo n s.cteIds) := by
  induction h with
  | empty n => exact Block.everywhere_iff.2 ⟨Block.Drawn.empty, by simp [Block.empty]⟩
  | @table lo n b h t hbox hnew ih =>
    obtain ⟨hid, hlink, hplain⟩ := hbox.drawn
    have hself := (Block.everywhere_iff.1 ih).1
    exact .everywhere ih (Nat.le_succ n) (hself.addTable h.le hid hlink hnew hplain) rfl
  | @join lo n b h j hid ih =>
    have hsubs : (b.addJoin j).subqueries = b.subqueries := by
      unfold Block.addJoin
      split <;> rfl
    exact .everywhere ih (Nat.le_succ n) ((Block.everywhere_iff.1 ih).1.succ.addJoin j) hsubs
  | @choose lo n b h id columns ih =>
    have hself := (Block.everywhere_iff.1 ih).1
    exact .everywhere ih (Nat.le_refl n) (hself.choose id (exists_foldl_select columns)) rfl
  | @filter lo n b h f hid hvalue ih =>
    have hself := (Block.everywhere_iff.1 ih).1
    exact .everywhere ih (Nat.le_succ n) (hself.succ.addFilter hvalue) rfl
  | @limit lo n b h e value hvalue ih =>
    have hself := (Block.everywhere_iff.1 ih).1
    exact .everywhere ih (Nat.le_refl n) (hself.congr ⟨rfl, rfl⟩ rfl rfl) rfl
  | @nest lo n m b h q hinner hid hrole hlink ih ihinner =>
    have hnest := Block.Drawn.nest ih h.le hinner.le hid ihinner [] (by simp)
      fun hwhere => (hrole hwhere).elim
    rwa [List.append_nil] at hnest
  | @compare lo n m b h q hinner f hfilter hid hrole hoperand hlink ih ihinner =>
    have hinner' : q.block.Everywhere (Block.Drawn n (m + 1) s.cteIds) :=
      ihinner.imp fun _ hb => hb.succ
    exact .nest ih h.le (Nat.le_succ_of_le hinner.le) hid hinner' [f] (by simpa using hoperand)
      (by simp)
  | @aggregate _ n _ _ _ _ ih | @grouping _ n _ _ _ _ ih | @having _ n _ _ _ _ ih
  | @sortTerm _ n _ _ _ _ ih =>
    have hself := (Block.everywhere_iff.1 ih).1
    exact .everywhere ih (Nat.le_succ n) (hself.succ.congr ⟨rfl, rfl⟩ rfl rfl) rfl

theorem readBlock_drawn (s : Scope) (nested : Bool) (q : Query) (n : Nat) :
    Reads n (readBlock s nested q) fun b n' => b.Everywhere (Block.Drawn n n' s.cteIds) :=
  (readBlock_reached s nested q n).imp fun _ _ _ h => h.drawn

/-! ## Canvases -/

/-- Named queries that were read since the counter stood at `lo`. -/
structure CtesDrawn (lo n : Nat) (ctes : List Cte) : Prop where
  ids : Serial lo n (ctes.map (·.id))
  blocks : ∀ q ∈ ctes, q.block.Everywhere (Block.Drawn lo n (ctes.map (·.id)))

/-- A named query is added that was read meanwhile. -/
theorem CtesDrawn.push {lo n m : Nat} {known : List Cte} (h : CtesDrawn lo n known) (hlo : lo ≤ n)
    (hn : n ≤ m) {q : Cte} (hid : q.id = EntityId.minted m)
    (hq : q.block.Everywhere (Block.Drawn n m (known.map (·.id)))) :
    CtesDrawn lo (m + 1) (known ++ [q]) := by
  have hmap : (known ++ [q]).map (·.id) = known.map (·.id) ++ [EntityId.minted m] := by simp [hid]
  have hmore : ∀ id ∈ known.map (·.id), id ∈ known.map (·.id) ++ [EntityId.minted m] :=
    fun _ hid => List.mem_append_left _ hid
  refine ⟨?_, fun r hr => ?_⟩ <;> rw [hmap]
  · exact (h.ids.mono (Nat.le_refl lo) hn).push (Nat.le_trans hlo hn)
  · rcases List.mem_append.1 hr with hr | hr
    · exact (h.blocks r hr).imp fun _ hb =>
        hb.mono (Nat.le_refl lo) (Nat.le_succ_of_le hn) hmore
    · rw [List.mem_singleton.1 hr]
      exact hq.imp fun _ hb => hb.mono hlo (Nat.le_succ m) hmore

theorem CtesReached.drawn {catalog : Catalog} {lo n : Nat} {ctes : List Cte}
    (h : CtesReached catalog lo n ctes) : CtesDrawn lo n ctes := by
  induction h with
  | nil => exact ⟨Serial.nil, by simp⟩
  | push h hnew hblock hid ih => exact ih.push h.le hblock.le hid hblock.drawn

end Sql

/-- What holds of every canvas that is read off a query while the counter goes from `lo` to
`hi`. -/
structure Canvas.Drawn (lo hi : Nat) (c : Canvas) : Prop where
  cteIds : Serial lo hi c.cteIds
  blocks : c.Everywhere (Block.Drawn lo hi c.cteIds)

namespace Sql

theorem CtesReached.names {catalog : Catalog} {lo n : Nat} {ctes : List Cte}
    (h : CtesReached catalog lo n ctes) :
    (ctes.map (·.name)).Pairwise fun name name' => ¬Text.sameName name name' := by
  induction h with
  | nil => exact List.Pairwise.nil
  | @push n m known h q hnew hblock hid ih =>
    rw [List.map_append]
    refine List.pairwise_append.2 ⟨ih, List.pairwise_singleton _ _, fun name hname name' hq => ?_⟩
    obtain ⟨r, hr, rfl⟩ := List.mem_map.1 hname
    rw [List.mem_singleton.1 hq]
    exact hnew r hr

/-- The named queries of a canvas that is read have different names. -/
theorem CanvasReached.cteNames {catalog : Catalog} {lo n : Nat} {c : Canvas}
    (h : CanvasReached catalog lo n c) :
    (c.ctes.map (·.name)).Pairwise fun name name' => ¬Text.sameName name name' := by
  obtain ⟨m, hctes, -⟩ := h
  exact hctes.names

theorem CanvasReached.le {catalog : Catalog} {lo n : Nat} {c : Canvas}
    (h : CanvasReached catalog lo n c) : lo ≤ n := by
  obtain ⟨m, hctes, hroot⟩ := h
  exact Nat.le_trans hctes.le hroot.le

theorem CanvasReached.drawn {catalog : Catalog} {lo n : Nat} {c : Canvas}
    (h : CanvasReached catalog lo n c) : c.Drawn lo n := by
  obtain ⟨m, hctes, hroot⟩ := h
  refine ⟨hctes.drawn.ids.mono (Nat.le_refl lo) hroot.le, hroot.drawn.imp fun _ hb => ?_,
    fun q hq => ?_⟩
  · exact hb.mono hctes.le (Nat.le_refl n) fun _ hid => hid
  · exact (hctes.drawn.blocks q hq).imp fun _ hb =>
      hb.mono (Nat.le_refl lo) hroot.le fun _ hid => hid

/-- The canvas of a text is well formed. -/
theorem readText_drawn (d : Dialect) (catalog : Catalog) (text : String) (n : Nat) :
    Reads n (readText d catalog text) fun c n' => c.Drawn n n' :=
  (readText_reached d catalog text n).imp fun _ _ _ h => h.drawn

/-- The block of a text is well formed. -/
theorem readNestedText_drawn (d : Dialect) (s : Scope) (text : String) (n : Nat) :
    Reads n (readNestedText d s text) fun b n' => b.Everywhere (Block.Drawn n n' s.cteIds) :=
  (readNestedText_reached d s text n).imp fun _ _ _ h => h.drawn

end Sql

end QueryCanvas
