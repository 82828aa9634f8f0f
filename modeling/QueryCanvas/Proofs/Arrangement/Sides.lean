import QueryCanvas.Proofs.Arrangement.Arranged
import QueryCanvas.Proofs.CarryOver.Nested
import QueryCanvas.Proofs.Shape.Sets

/-!
# Which kind of join brings in a table

A join is written as a step that brings in the one of its tables that stands later.  So a step of a
kind brings in a table exactly if a join of that kind connects it with a table before it, wherever
the block draws the two.
-/

set_option autoImplicit false

namespace QueryCanvas

open Sql

theorem JoinShape.texts_injective : Function.Injective JoinShape.texts := by
  rintro ⟨s, sc, t, tc, k⟩ ⟨s', sc', t', tc', k'⟩ h
  simp only [texts, List.cons.injEq, and_true] at h
  obtain ⟨rfl, rfl, rfl, rfl, hk⟩ := h
  have hkind : k = k' := by
    cases k <;> cases k' <;> first | rfl | exact absurd hk (by decide)
  rw [hkind]

/-- A join connects tables of two names, whichever of them is its source. -/
def JoinShape.Ties (j : JoinShape) (a c : String) : Prop :=
  (j.source = a ∧ j.target = c) ∨ (j.source = c ∧ j.target = a)

namespace Block

/-- A step of a kind brings in a table in the `FROM` clause of a block. -/
def BringsIn (b : Block) (kind : JoinKind) (t : Table) : Prop :=
  ∃ item ∈ fromItems b, ∃ s ∈ item.steps, s.kind = kind ∧ s.joined = some t

variable {b : Block} {t : Table}

theorem mem_shape_joins {j : JoinShape} :
    j ∈ b.shape.joins ↔ ∃ join ∈ b.joins, join.shape? b = some j := by
  have hjoins : b.shape.joins = setByKey JoinShape.texts (b.joins.filterMap (Join.shape? b)) := by
    cases b
    rfl
  rw [hjoins, mem_setByKey JoinShape.texts_injective, List.mem_filterMap]

/-- The shape has a join for each join between two tables. -/
theorem shape_of_ties (hids : (b.tables.map (·.id)).Nodup) {a c : Table} (ha : a ∈ b.tables)
    (hc : c ∈ b.tables) {join : Join} (hjoin : join ∈ b.joins) (hties : join.Ties a.id c.id) :
    ∃ j ∈ b.shape.joins, j.kind = join.kind ∧ j.Ties a.name c.name := by
  have htable {t : Table} (ht : t ∈ b.tables) : b.table? t.id = some t := find?_of_nodup hids ht
  rcases hties with ⟨hsource, htarget⟩ | ⟨hsource, htarget⟩
  · refine ⟨⟨a.name, join.sourceColumn, c.name, join.targetColumn, join.kind⟩,
      mem_shape_joins.2 ⟨join, hjoin, ?_⟩, rfl, .inl ⟨rfl, rfl⟩⟩
    simp only [Join.shape?, hsource, htarget, htable ha, htable hc]
  · refine ⟨⟨c.name, join.sourceColumn, a.name, join.targetColumn, join.kind⟩,
      mem_shape_joins.2 ⟨join, hjoin, ?_⟩, rfl, .inr ⟨rfl, rfl⟩⟩
    simp only [Join.shape?, hsource, htarget, htable ha, htable hc]

/-- Each join of the shape stands for a link between the tables of its names. -/
theorem exists_link_of_shape (hnames : (b.tables.map (·.name)).Nodup) {a c : Table}
    (ha : a ∈ b.tables) (hc : c ∈ b.tables) {j : JoinShape} (hj : j ∈ b.shape.joins)
    (hties : j.Ties a.name c.name) :
    ∃ l : Link, l.join ∈ b.joins ∧ link? b l.join = some l ∧ l.join.kind = j.kind ∧
      l.join.Ties a.id c.id ∧ ((l.source = a ∧ l.target = c) ∨ (l.source = c ∧ l.target = a)) := by
  obtain ⟨join, hjoin, hshape⟩ := mem_shape_joins.1 hj
  unfold Join.shape? at hshape
  split at hshape
  · rename_i source target hsource htarget
    cases hshape
    have hs := List.find?_some (p := fun t : Table => t.id = join.sourceTable) hsource
    have ht := List.find?_some (p := fun t : Table => t.id = join.targetTable) htarget
    have hsmem := List.mem_of_find?_eq_some hsource
    have htmem := List.mem_of_find?_eq_some htarget
    have hsame {t u : Table} (ht : t ∈ b.tables) (hu : u ∈ b.tables) (h : t.name = u.name) :
        t = u :=
      List.inj_on_of_nodup_map hnames ht hu h
    have hends : (source = a ∧ target = c) ∨ (source = c ∧ target = a) := by
      rcases hties with ⟨hsname, htname⟩ | ⟨hsname, htname⟩
      · exact .inl ⟨hsame hsmem ha hsname, hsame htmem hc htname⟩
      · exact .inr ⟨hsame hsmem hc hsname, hsame htmem ha htname⟩
    refine ⟨⟨join, source, target⟩, hjoin, by simp [link?, hsource, htarget], rfl, ?_, hends⟩
    rw [Join.Ties, ← of_decide_eq_true hs, ← of_decide_eq_true ht]
    rcases hends with ⟨rfl, rfl⟩ | ⟨rfl, rfl⟩
    · exact .inl ⟨rfl, rfl⟩
    · exact .inr ⟨rfl, rfl⟩
  · cases hshape

/-- No step has a condition of another kind than its own. -/
theorem kind_of_overriddenJoins (h : overriddenJoins b = []) {item : FromItem}
    (hitem : item ∈ fromItems b) {s : JoinStep} (hs : s ∈ item.steps) {j : Join}
    (hj : j ∈ s.conditions) : j.kind = s.kind := by
  by_contra hne
  have hmem : (j, s.kind) ∈ overriddenJoins b := by
    simp only [overriddenJoins, List.mem_flatMap, List.mem_map, List.mem_filter]
    exact ⟨item, hitem, s, hs, j, ⟨hj, by simpa using hne⟩, rfl⟩
  rw [h] at hmem
  cases hmem

theorem before_of_item {items : List FromItem} {item : FromItem} (hitem : item ∈ items)
    {a c : EntityId} (h : List.Sublist [a, c] item.placed) : Before items a c :=
  h.trans (List.sublist_flatten_of_mem (List.mem_map_of_mem hitem))

/-- A step of a kind brings in a table exactly if a join of that kind connects it with a table that
is written before it. -/
theorem bringsIn_iff (kind : JoinKind) (hids : (b.tables.map (·.id)).Nodup)
    (hnames : (b.tables.map (·.name)).Nodup) (hkinds : overriddenJoins b = [])
    (ht : t ∈ b.tables) :
    b.BringsIn kind t ↔ ∃ a ∈ b.tables, Before (fromItems b) a.id t.id ∧
      ∃ j ∈ b.shape.joins, j.kind = kind ∧ j.Ties a.name t.name := by
  obtain ⟨harranged, hlinks, hwritten⟩ := fromItems_arranged b
  constructor
  · rintro ⟨item, hitem, s, hs, rfl, hjoined⟩
    have hitem' := harranged.sound item hitem
    have hsound := hitem'.steps s hs
    simp only [JoinStep.Sound, hjoined] at hsound
    obtain ⟨⟨j, hj, hkind⟩, htied⟩ := hsound
    obtain ⟨id, hbefore, hties⟩ := htied j hj
    have hid : id ∈ item.placed := hbefore.subset List.mem_cons_self
    obtain ⟨a, ha, rfl⟩ := List.mem_map.1 hid
    have ha := hitem'.tables a ha
    have hjoin : j ∈ b.joins := hwritten j
      (List.mem_flatMap.2 ⟨item, hitem, List.mem_flatMap.2 ⟨s, hs, hj⟩⟩)
    obtain ⟨shape, hshape, hsame, hnamed⟩ := shape_of_ties hids ha ht hjoin hties
    exact ⟨a, ha, before_of_item hitem hbefore, shape, hshape, hsame.trans hkind, hnamed⟩
  · rintro ⟨a, ha, hbefore, shape, hshape, rfl, hnamed⟩
    obtain ⟨l, hjoin, hlink, hkind, hties, hends⟩ :=
      exists_link_of_shape hnames ha ht hshape hnamed
    have hne : a.id ≠ t.id := fun heq => (heq ▸ hbefore).antisymm harranged.nodup (heq ▸ hbefore)
    have hdistinct : l.source.id ≠ l.target.id := by
      rcases hends with ⟨hs, ht⟩ | ⟨hs, ht⟩ <;> rw [hs, ht]
      · exact hne
      · exact hne.symm
    obtain ⟨item, hitem, hitemj⟩ :=
      List.mem_flatMap.1 (hlinks l (mem_links.2 ⟨hjoin, hlink, hdistinct⟩))
    obtain ⟨s, hs, hsj⟩ := List.mem_flatMap.1 hitemj
    have hitem' := harranged.sound item hitem
    have hsound := hitem'.steps s hs
    refine ⟨item, hitem, s, hs, (kind_of_overriddenJoins hkinds hitem hs hsj).symm.trans hkind, ?_⟩
    unfold JoinStep.Sound at hsound
    split at hsound
    · rename_i x hx
      obtain ⟨id, hid, hx'⟩ := hsound.2 l.join hsj
      have hxmem : x ∈ b.tables := by
        refine hitem'.tables x ?_
        rw [FromItem.tables]
        exact List.mem_cons_of_mem _ (List.mem_filterMap.2 ⟨s, hs, hx⟩)
      rcases Join.Ties.eq_or_eq hx' hties with ⟨-, hid'⟩ | ⟨rfl, hid'⟩
      · rw [hx, List.inj_on_of_nodup_map hids hxmem ht hid']
      · exact (hbefore.antisymm harranged.nodup (before_of_item hitem (hid' ▸ hid))).elim
    · exact absurd (hsound l.join hsj) (by simp [hlink])

end Block

end QueryCanvas
