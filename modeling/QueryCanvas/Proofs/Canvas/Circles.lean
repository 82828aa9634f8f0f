import Mathlib.Logic.Relation
import QueryCanvas.Proofs.Canvas.Focus
import QueryCanvas.Proofs.Canvas.Linked

/-!
# Named queries that read each other

A named query reads those that tables in its body are linked to, at any depth.  A change of one
block changes what the named query around it reads, and leaves alone what the others read.  Such a
change closes a circle exactly if one of the named queries that are newly read leads back to the one
that reads them.
-/

set_option autoImplicit false

namespace QueryCanvas

/-! ## Circles in a relation -/

section

variable {α : Type} {G H : α → α → Prop} {p : α} {N : α → Prop}

/-- A way to a point is one without what only leads away from that point. -/
theorem reflTransGen_of_away (hother : ∀ a b, a ≠ p → H a b → G a b) {a : α}
    (h : Relation.ReflTransGen H a p) : Relation.ReflTransGen G a p := by
  induction h using Relation.ReflTransGen.head_induction_on with
  | refl => exact .refl
  | @head a b hstep _ ih =>
    by_cases ha : a = p
    · rw [ha]
    · exact .head (hother a b ha hstep) ih

/-- With other steps from one point, a way is one with the old steps, or it passes through that
point and goes on with a new step. -/
theorem transGen_or_new (hother : ∀ a b, a ≠ p → H a b → G a b)
    (hnew : ∀ b, H p b → G p b ∨ N b) {a c : α} (h : Relation.TransGen H a c) :
    Relation.TransGen G a c ∨
      ∃ b, N b ∧ Relation.ReflTransGen H a p ∧ Relation.ReflTransGen H b c := by
  have hstep : ∀ a b, H a b → G a b ∨ (a = p ∧ N b) := by
    intro a b hab
    by_cases ha : a = p
    · subst ha
      exact (hnew b hab).imp_right fun hb => ⟨rfl, hb⟩
    · exact .inl (hother a b ha hab)
  induction h with
  | @single b hab =>
    rcases hstep a b hab with hab | ⟨rfl, hb⟩
    · exact .inl (.single hab)
    · exact .inr ⟨b, hb, .refl, .refl⟩
  | @tail b c hway hbc ih =>
    rcases ih with hold | ⟨d, hd, hto, hfrom⟩
    · rcases hstep b c hbc with hbc | ⟨rfl, hc⟩
      · exact .inl (hold.tail hbc)
      · exact .inr ⟨c, hc, hway.to_reflTransGen, .refl⟩
    · exact .inr ⟨d, hd, hto, hfrom.tail hbc⟩

/-- Other steps from one point close a circle exactly if a new one leads to where a way leads
back. -/
theorem exists_circle_iff (hother : ∀ a b, a ≠ p → (H a b ↔ G a b))
    (hnew : ∀ b, H p b → G p b ∨ N b) (hadd : ∀ b, N b → H p b)
    (hacyclic : ∀ a, ¬Relation.TransGen G a a) :
    (∃ a, Relation.TransGen H a a) ↔ ∃ b, N b ∧ Relation.ReflTransGen G b p := by
  constructor
  · rintro ⟨a, hcircle⟩
    have hsame : ∀ a b, a ≠ p → H a b → G a b := fun a b ha => (hother a b ha).1
    rcases transGen_or_new hsame hnew hcircle with hold | ⟨b, hb, hto, hfrom⟩
    · exact absurd hold (hacyclic a)
    · exact ⟨b, hb, reflTransGen_of_away hsame (hfrom.trans hto)⟩
  · rintro ⟨b, hb, hback⟩
    have hsame : ∀ a b, a ≠ p → G a b → H a b := fun a b ha => (hother a b ha).2
    exact ⟨p, .head' (hadd b hb) (reflTransGen_of_away hsame hback)⟩

end

/-! ## What a named query reads -/

/-- A table in the body of one named query, at any depth, is linked to another one. -/
def Canvas.Reads (c : Canvas) (p q : EntityId) : Prop :=
  ∃ a ∈ c.ctes, a.id = p ∧ ∃ b ∈ a.block.blocks, ∃ t ∈ b.tables, t.cte = some q

/-- No way from a named query to those that it reads leads back to it. -/
def Canvas.Acyclic (c : Canvas) : Prop := ∀ p, ¬Relation.TransGen c.Reads p p

namespace Canvas

variable {c c' : Canvas} {focus : Focus} {p q : EntityId} {b old : Block}
  {change : Block → Block} {G : EntityId → EntityId → Prop}

theorem reads_of_linked (h : c.Linked fun place id _ => ∀ p ∈ place, G p id)
    (hreads : c.Reads p q) : G p q := by
  obtain ⟨a, ha, rfl, b, hb, t, ht, hlink⟩ := hreads
  exact h.ctes a ha b hb t ht q hlink a.id rfl

theorem linked_reads (c : Canvas) : c.Linked fun place id _ => ∀ p ∈ place, c.Reads p id := by
  refine ⟨fun b _ t _ id _ p hp => ?_, fun a ha b hb t ht id hlink p hp => ?_⟩
  · cases hp
  · cases hp
    exact ⟨a, ha, rfl, b, hb, t, ht, hlink⟩

theorem Acyclic.mono (h : c.Acyclic) (hreads : ∀ p q, c'.Reads p q → c.Reads p q) : c'.Acyclic :=
  fun p hcircle => h p (Relation.TransGen.mono hreads p p hcircle)

/-! ## The place of a block -/

/-- The block of a pointer stands below the root or in the body of the named query around it. -/
theorem owner?_of_block? (h : c.block? focus = some b) :
    (c.owner? focus = none ∧ b.blocks ⊆ c.root.blocks) ∨
      ∃ q ∈ c.ctes, c.owner? focus = some q.id ∧ b.blocks ⊆ q.block.blocks := by
  have hbelow : ∀ {id : EntityId} {outer : Block}, outer.nested? id = some b →
      b.blocks ⊆ outer.blocks := by
    intro id outer hfound
    exact Block.Everywhere.nested? (P := fun d => d ∈ outer.blocks) outer b (fun _ hd => hd) hfound
  cases focus with
  | root =>
    cases h
    exact .inl ⟨rfl, List.Subset.refl _⟩
  | cte id =>
    obtain ⟨q, hq, rfl⟩ := Option.map_eq_some_iff.1 h
    have hid := List.find?_some hq
    refine .inr ⟨q, List.mem_of_find?_eq_some hq, ?_, List.Subset.refl _⟩
    exact congrArg some (of_decide_eq_true hid).symm
  | subquery id =>
    simp only [block?, nested?] at h
    split at h
    · rename_i found hfound
      cases h
      exact .inl ⟨if_pos (Option.isSome_of_eq_some hfound), hbelow hfound⟩
    · rename_i hroot
      obtain ⟨before, q, after, hctes, hq, hbefore⟩ := List.findSome?_eq_some_iff.1 h
      have hfirst : c.ctes.find? (·.block.containsNested id) = some q := by
        rw [hctes, List.find?_append, List.find?_eq_none.2, Option.none_or]
        · exact List.find?_cons_of_pos (Option.isSome_of_eq_some hq)
        · intro r hr
          rw [Block.containsNested, hbefore r hr]
          exact Bool.false_ne_true
      refine .inr ⟨q, List.mem_of_find?_eq_some hfirst, ?_, hbelow hq⟩
      rw [owner?, hroot, hfirst]
      rfl

/-- The first named query with a nested query stays where it is when that nested query changes. -/
theorem find?_updateNestedInCtes (id : EntityId) (change : Block → Block) (ctes : List Cte) :
    ((updateNestedInCtes id change ctes).find? (·.block.containsNested id)).map (·.id) =
      (ctes.find? (·.block.containsNested id)).map (·.id) := by
  induction ctes with
  | nil => rfl
  | cons q rest ih =>
    rw [updateNestedInCtes]
    split
    · rename_i b hb
      obtain ⟨found, hfound, hchanged⟩ := Block.nested?_eq_some hb
      have hfirst : q.block.containsNested id = true := Option.isSome_of_eq_some hfound
      have hlater : b.containsNested id = true := Option.isSome_of_eq_some hchanged
      rw [List.find?_cons, List.find?_cons, hfirst, hlater]
      rfl
    · rename_i hnone
      have hfirst : q.block.containsNested id = false := by
        rw [Block.containsNested, Block.nested?_eq_none hnone]
        rfl
      rw [List.find?_cons, List.find?_cons, hfirst]
      exact ih

/-- A block stays in its place when it changes. -/
theorem owner?_updateBlock (c : Canvas) (focus : Focus) (change : Block → Block) :
    (c.updateBlock focus change).owner? focus = c.owner? focus := by
  cases focus with
  | root => rfl
  | cte id => rfl
  | subquery id =>
    simp only [updateBlock]
    split
    · rename_i root hroot
      obtain ⟨found, hfound, hchanged⟩ := Block.nested?_eq_some hroot
      simp only [owner?, hfound, hchanged]
      rfl
    · rename_i hnone
      simp only [owner?, Block.nested?_eq_none hnone, find?_updateNestedInCtes]

/-! ## A change of one block -/

theorem mem_updateFirst_of_neg {α : Type} {test : α → Bool} {f : α → α} {l : List α} {a : α}
    (ha : a ∈ l) (hneg : ¬test a = true) : a ∈ updateFirst test f l := by
  induction l with
  | nil => exact ha
  | cons first rest ih =>
    rw [updateFirst]
    rcases List.mem_cons.1 ha with rfl | ha
    · rw [if_neg hneg]
      exact List.mem_cons_self
    · split
      · exact List.mem_cons_of_mem _ ha
      · exact List.mem_cons_of_mem _ (ih ha)

theorem mem_updateNestedInCtes {id : EntityId} {ctes : List Cte} {a : Cte} (ha : a ∈ ctes)
    (hother : ∀ r, ctes.find? (·.block.containsNested id) = some r → r.id ≠ a.id) :
    a ∈ updateNestedInCtes id change ctes := by
  induction ctes with
  | nil => exact ha
  | cons r rest ih =>
    rw [updateNestedInCtes]
    split
    · rename_i b hb
      obtain ⟨found, hfound, -⟩ := Block.nested?_eq_some hb
      have hfirst : r.block.containsNested id = true := Option.isSome_of_eq_some hfound
      have hne := hother r (List.find?_cons_of_pos hfirst)
      rcases List.mem_cons.1 ha with rfl | ha
      · exact absurd rfl hne
      · exact List.mem_cons_of_mem _ ha
    · rename_i hnone
      have hfirst : ¬r.block.containsNested id = true := by
        rw [Block.containsNested, Block.nested?_eq_none hnone]
        exact Bool.false_ne_true
      rcases List.mem_cons.1 ha with rfl | ha
      · exact List.mem_cons_self
      · refine List.mem_cons_of_mem _ (ih ha fun s hs => hother s ?_)
        rw [List.find?_cons_of_neg (p := fun q : Cte => q.block.containsNested id) hfirst]
        exact hs

/-- A change of one block leaves the named queries alone in whose body it does not stand. -/
theorem mem_ctes_updateBlock {a : Cte} (ha : a ∈ c.ctes) (hother : c.owner? focus ≠ some a.id) :
    a ∈ (c.updateBlock focus change).ctes := by
  cases focus with
  | root => exact ha
  | cte id =>
    refine mem_updateFirst_of_neg ha ?_
    rw [decide_eq_true_iff]
    rintro rfl
    exact hother rfl
  | subquery id =>
    simp only [updateBlock]
    split
    · exact ha
    · rename_i hnone
      refine mem_updateNestedInCtes ha fun r hr heq => hother ?_
      rw [owner?, Block.nested?_eq_none hnone, hr]
      exact congrArg some heq

theorem reads_updateBlock_of_ne (h : c.Reads p q) (hp : c.owner? focus ≠ some p) :
    (c.updateBlock focus change).Reads p q := by
  obtain ⟨a, ha, rfl, hlinks⟩ := h
  exact ⟨a, mem_ctes_updateBlock ha hp, rfl, hlinks⟩

/-- A named query reads what tables in a block of its body are linked to. -/
theorem reads_of_owner (hblock : c.block? focus = some b) (howner : c.owner? focus = some p)
    {d : Block} (hd : d ∈ b.blocks) {t : Table} (ht : t ∈ d.tables) (hlink : t.cte = some q) :
    c.Reads p q := by
  rcases owner?_of_block? hblock with ⟨hnone, -⟩ | ⟨a, ha, hsome, hsubset⟩
  · cases hnone.symm.trans howner
  · cases hsome.symm.trans howner
    exact ⟨a, ha, rfl, d, hsubset hd, t, ht, hlink⟩

/-! ## A refresh -/

/-- A refresh leaves all links alone. -/
theorem reads_refreshCteColumns_iff (id : EntityId) :
    (c.refreshCteColumns id).Reads p q ↔ c.Reads p q := by
  constructor
  · refine reads_of_linked (G := c.Reads) ?_
    exact c.linked_reads.refreshCteColumns id fun _ _ _ hreads => hreads
  · intro h
    unfold refreshCteColumns
    split
    · exact h
    · rename_i shown _
      obtain ⟨a, ha, rfl, b, hb, t, ht, hlink⟩ := h
      have hsubs : ∀ b : Block, (b.updateLinked id fun t =>
          { t with columns := shown.block.outputColumns }).subqueries = b.subqueries :=
        fun _ => rfl
      have hmem : b.mapBlocks _ ∈ (a.block.mapBlocks _).blocks :=
        Block.blocks_mapBlocks hsubs a.block ▸ List.mem_map_of_mem hb
      rw [Block.mapBlocks_eq _ b] at hmem
      refine ⟨_, List.mem_map_of_mem ha, rfl, _, hmem, ?_⟩
      refine ⟨_, List.mem_map_of_mem (l := b.tables) ht, ?_⟩
      split
      · exact hlink
      · exact hlink

/-! ## Circles -/

theorem Acyclic.of_linked (h : c.Acyclic)
    (hlinked : c'.Linked fun place id _ => ∀ p ∈ place, c.Reads p id) : c'.Acyclic :=
  h.mono fun _ _ hreads => reads_of_linked hlinked hreads

theorem acyclic_refreshCteColumns_iff (id : EntityId) :
    (c.refreshCteColumns id).Acyclic ↔ c.Acyclic := by
  have hsame : (c.refreshCteColumns id).Reads = c.Reads := by
    funext p q
    exact propext (reads_refreshCteColumns_iff id)
  rw [Acyclic, Acyclic, hsame]

/-- With a changed block in the body of a named query there is a circle exactly if something that is
newly read there leads back to that named query. -/
theorem acyclic_updateBlock_iff {N : EntityId → Prop} (h : c.Acyclic)
    (hblock : c.block? focus = some old)
    (hlinks : ∀ R : EntityId → List String → Prop, (∀ q columns, N q → R q columns) →
      ∀ b, b.Everywhere (Block.Linked R) → (change b).Everywhere (Block.Linked R))
    (hnew : ∀ q, N q → ∃ d ∈ (change old).blocks, ∃ t ∈ d.tables, t.cte = some q) :
    (c.updateBlock focus change).Acyclic ↔
      ¬∃ p q, c.owner? focus = some p ∧ N q ∧ Relation.ReflTransGen c.Reads q p := by
  have hafter : (c.updateBlock focus change).Linked fun place id _ =>
      ∀ p ∈ place, c.Reads p id ∨ (c.owner? focus = some p ∧ N id) := by
    refine Linked.updateBlock ?_ focus (hlinks _ fun q _ hq p hp => .inr ⟨hp, hq⟩)
    exact c.linked_reads.imp fun _ _ _ hreads p hp => .inl (hreads p hp)
  have hreads : ∀ {p q}, (c.updateBlock focus change).Reads p q →
      c.Reads p q ∨ (c.owner? focus = some p ∧ N q) :=
    reads_of_linked (G := fun p q => c.Reads p q ∨ (c.owner? focus = some p ∧ N q)) hafter
  cases howner : c.owner? focus with
  | none =>
    rw [howner] at hreads
    refine iff_of_true (h.mono fun p q hpq => ?_) ?_
    · exact (hreads hpq).resolve_right nofun
    · rintro ⟨p, q, hp, -⟩
      cases hp
  | some p =>
    rw [howner] at hreads
    have hcircle := exists_circle_iff (G := c.Reads) (H := (c.updateBlock focus change).Reads)
      (p := p) (N := N) ?_ ?_ ?_ h
    · rw [Acyclic, ← not_exists, hcircle]
      refine not_congr ⟨fun ⟨q, hq, hback⟩ => ⟨p, q, rfl, hq, hback⟩, ?_⟩
      rintro ⟨_, q, ⟨⟩, hq, hback⟩
      exact ⟨q, hq, hback⟩
    · intro a q ha
      constructor
      · intro haq
        refine (hreads haq).resolve_right ?_
        rintro ⟨⟨⟩, -⟩
        exact ha rfl
      · intro haq
        refine reads_updateBlock_of_ne haq ?_
        rw [howner]
        rintro ⟨⟩
        exact ha rfl
    · intro q hpq
      exact (hreads hpq).imp_right And.right
    · intro q hq
      obtain ⟨d, hd, t, ht, hlink⟩ := hnew q hq
      have hafter : (c.updateBlock focus change).block? focus = some (change old) := by
        rw [block?_updateBlock, hblock, Option.map_some]
      exact reads_of_owner hafter ((owner?_updateBlock c focus change).trans howner) hd ht hlink

/-- A table that reads a named query closes a circle exactly if the named query leads to the one in
whose body the table is put. -/
theorem acyclic_addCteReference_iff (h : c.Acyclic) (focus : Focus) (cte new : EntityId)
    (position : Position) :
    (c.addCteReference focus cte new position).Acyclic ↔
      ¬(c.canReference focus cte = true ∧
        ∃ p, c.owner? focus = some p ∧ Relation.ReflTransGen c.Reads cte p) := by
  unfold addCteReference
  split
  · rename_i hnone
    refine iff_of_true h ?_
    rintro ⟨hcan, -⟩
    simp [canReference, hnone] at hcan
  · split
    · rename_i q hq hcan
      have hblock : (c.block? focus).isSome = true := by
        simp only [canReference, Bool.and_eq_true] at hcan
        exact hcan.2
      obtain ⟨old, hold⟩ := Option.isSome_iff_exists.1 hblock
      rw [acyclic_updateBlock_iff (N := (· = cte)) h hold]
      · refine not_congr ⟨?_, ?_⟩
        · rintro ⟨p, _, hp, rfl, hback⟩
          exact ⟨hcan, p, hp, hback⟩
        · rintro ⟨-, p, hp, hback⟩
          exact ⟨p, cte, hp, rfl, hback⟩
      · intro R hR b hb
        obtain ⟨hself, hbelow⟩ := Block.everywhere_iff.1 hb
        refine Block.everywhere_iff.2 ⟨hself.addTable ?_, hbelow⟩
        rintro _ ⟨⟩
        exact hR cte _ rfl
      · rintro _ rfl
        exact ⟨_, Block.self_mem_blocks _, _, List.mem_append_right _ (List.mem_singleton_self _),
          rfl⟩
    · rename_i hcan
      exact iff_of_true h fun hboth => hcan hboth.1

/-- Another block in the body of a named query closes a circle exactly if something that it reads
leads to that named query. -/
theorem acyclic_updateBlock_const_iff (h : c.Acyclic) (hblock : c.block? focus = some old)
    (b : Block) :
    (c.updateBlock focus fun _ => b).Acyclic ↔
      ¬∃ p q, c.owner? focus = some p ∧ (∃ d ∈ b.blocks, ∃ t ∈ d.tables, t.cte = some q) ∧
        Relation.ReflTransGen c.Reads q p :=
  acyclic_updateBlock_iff h hblock
    (fun _ hR _ _ d hd t ht id hid => hR id t.columns ⟨d, hd, t, ht, hid⟩) fun _ hq => hq

/-- Where named queries read only from those before them, there is no circle. -/
theorem acyclic_of_order (hids : c.cteIds.Nodup)
    (horder : ∀ before a after, c.ctes = before ++ a :: after →
      a.block.Everywhere (Block.Linked fun id _ => id ∈ before.map (·.id))) : c.Acyclic := by
  have hearlier : ∀ {p q}, c.Reads p q → c.cteIds.idxOf q < c.cteIds.idxOf p := by
    rintro _ q ⟨a, ha, rfl, b, hb, t, ht, hlink⟩
    obtain ⟨before, after, hsplit⟩ := List.append_of_mem ha
    have hq := horder before a after hsplit b hb t ht q hlink
    have hcteIds : c.cteIds = before.map (·.id) ++ a.id :: after.map (·.id) := by
      rw [cteIds, hsplit, List.map_append, List.map_cons]
    rw [hcteIds] at hids ⊢
    have ha : a.id ∉ before.map (·.id) := fun hmem =>
      (List.nodup_append.1 hids).2.2 _ hmem _ List.mem_cons_self rfl
    rw [List.idxOf_append_of_mem hq, List.idxOf_append_of_notMem ha, List.idxOf_cons_self]
    exact List.idxOf_lt_length_of_mem hq
  intro p hcircle
  have hlt : ∀ {q}, Relation.TransGen c.Reads p q → c.cteIds.idxOf q < c.cteIds.idxOf p := by
    intro q hway
    induction hway with
    | single hstep => exact hearlier hstep
    | tail _ hstep ih => exact Nat.lt_trans (hearlier hstep) ih
  exact Nat.lt_irrefl _ (hlt hcircle)

end Canvas

end QueryCanvas
