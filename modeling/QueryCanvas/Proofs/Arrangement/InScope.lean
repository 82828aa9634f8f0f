import Mathlib.Data.List.Count
import QueryCanvas.Proofs.Arrangement.Components

/-!
# Joins are written where their tables are in scope

A join between two different tables of a block is a condition once for each time it is drawn.  The
step that carries it brings in one of its tables, and the other one is in scope there: the item
begins with it, or an earlier step of the same item brings it in.  A join of a table with itself is
not written, and a join that leads nowhere gets a step of its own, which brings in no table.

While joins are put in place none is dropped: of two tables in place that a join ties, a step
brought in the later one, and this step takes the condition.
-/

set_option autoImplicit false

namespace QueryCanvas

/-- The join names a table that is not in the block. -/
def Join.LeadsNowhere (b : Block) (j : Join) : Prop :=
  b.table? j.sourceTable = none ∨ b.table? j.targetTable = none

/-- The join leads from a table of the block to that table itself. -/
def Join.IsLoop (b : Block) (j : Join) : Prop :=
  (b.table? j.sourceTable).isSome ∧ j.targetTable = j.sourceTable

namespace Sql

variable {b : Block} {items : List FromItem} {item : FromItem} {step : JoinStep} {s t : Table}
  {j : Join}

theorem leadsNowhere_iff : j.LeadsNowhere b ↔ link? b j = none := by
  unfold Join.LeadsNowhere link?
  cases b.table? j.sourceTable <;> cases b.table? j.targetTable <;> simp

/-- The tables in scope in front of a step of an item: the one that the item begins with, and those
that earlier steps bring in. -/
def FromItem.inScope (item : FromItem) (k : Nat) : List Table :=
  item.base :: (item.steps.take k).filterMap (·.joined)

/-! ## The steps of the whole clause -/

theorem steps_append (items items' : List FromItem) :
    steps (items ++ items') = steps items ++ steps items' := List.flatMap_append

theorem lt_length_of_place? {id : EntityId} {p : Place} (h : place? items id = some p) :
    p.item < items.length := by
  obtain ⟨before, item, after, rfl, hitem, -⟩ := exists_of_place? h
  rw [hitem, List.length_append, List.length_cons]
  omega

/-- A join that leads nowhere gets a further step of its own. -/
theorem steps_addUnresolved_perm (h : items ≠ []) (j : Join) :
    (steps (addUnresolved items j)).Perm (steps items ++ [stepOf j none]) := by
  refine steps_addStep_perm (stepOf j none) ?_
  cases hanchor : (place? items j.sourceTable).or (place? items j.targetTable) with
  | none => exact List.length_pos_iff.2 h
  | some p =>
    rcases Option.or_eq_some_iff.1 hanchor with hplace | ⟨-, hplace⟩
    · exact lt_length_of_place? hplace
    · exact lt_length_of_place? hplace

theorem addUnresolved_ne_nil (h : items ≠ []) (j : Join) : addUnresolved items j ≠ [] := by
  rw [← List.length_pos_iff] at h ⊢
  unfold addUnresolved addStep
  rwa [List.length_modify]

theorem steps_foldl_addUnresolved_perm (h : items ≠ []) (joins : List Join) :
    (steps (joins.foldl addUnresolved items)).Perm (steps items ++ joins.map (stepOf · none)) := by
  induction joins generalizing items with
  | nil => rw [List.map_nil, List.append_nil]; exact List.Perm.refl _
  | cons j rest ih =>
    rw [List.foldl_cons, List.map_cons, ← List.singleton_append, ← List.append_assoc]
    exact (ih (addUnresolved_ne_nil h j)).trans ((steps_addUnresolved_perm h j).append_right _)

theorem steps_foldl_addAlone (tables : List Table) (items : List FromItem) :
    steps (tables.foldl addAlone items) = steps items := by
  induction tables generalizing items with
  | nil => rfl
  | cons t rest ih =>
    have hsame : steps (addAlone items t) = steps items := by
      unfold addAlone
      split
      · rfl
      · rw [steps_append]
        simp [steps]
    exact (ih _).trans hsame

/-- The steps of a clause: those that the joins between different tables make, and one for each join
that leads nowhere. -/
theorem steps_fromItems_perm (h : b.tables ≠ []) :
    (steps (fromItems b)).Perm (steps (joinedItems b) ++
      (b.joins.filter fun j => (link? b j).isNone).map (stepOf · none)) := by
  obtain ⟨t, ht⟩ := List.exists_mem_of_ne_nil _ h
  have hplaced := (placed_foldl_addAlone b.tables (joinedItems b)).2 t ht
  have hne : b.tables.foldl addAlone (joinedItems b) ≠ [] := by
    intro hnone
    rw [hnone] at hplaced
    cases hplaced
  rw [← steps_foldl_addAlone b.tables (joinedItems b)]
  exact steps_foldl_addUnresolved_perm hne _

theorem steps_of_no_tables (h : b.tables = []) : steps (fromItems b) = [] := by
  rw [fromItems_of_no_tables h]
  rfl

/-! ## Steps that bring in a table -/

/-- Each step of the items brings in a table. -/
def AllBring (items : List FromItem) : Prop :=
  ∀ item ∈ items, ∀ step ∈ item.steps, step.joined.isSome

namespace AllBring

theorem modify {n : Nat} {f : FromItem → FromItem} (h : AllBring items)
    (hf : ∀ item ∈ items, ∀ step ∈ (f item).steps, step.joined.isSome) :
    AllBring (items.modify n f) := by
  intro item hitem
  rcases mem_modify hitem with hitem | ⟨first, hfirst, rfl⟩
  · exact h item hitem
  · exact hf first hfirst

theorem addStep (h : AllBring items) (n : Nat) (j : Join) (t : Table) :
    AllBring (addStep items n (stepOf j (some t))) := by
  refine h.modify fun item hitem step hstep => ?_
  rcases List.mem_append.1 hstep with hstep | hstep
  · exact h item hitem step hstep
  · rw [List.mem_singleton.1 hstep]
    rfl

theorem addCondition (h : AllBring items) (p : Place) (j : Join) :
    AllBring (addCondition items p j) := by
  unfold Sql.addCondition
  split
  · exact h
  · refine h.modify fun item hitem step hstep => ?_
    rcases mem_modify hstep with hstep | ⟨first, hfirst, rfl⟩
    · exact h item hitem step hstep
    · exact h item hitem first hfirst

theorem attach? {l : Link} {next : List FromItem} {grown : Bool} (h : AllBring items)
    (hattach : attach? items l = some (next, grown)) : AllBring next := by
  unfold Sql.attach? at hattach
  split at hattach <;> cases hattach
  · exact h.addStep _ _ _
  · exact h.addStep _ _ _
  · exact h.addCondition _ _

theorem seed (h : AllBring items) (tables : List Table) (l : Link) :
    AllBring (seed tables items l) := by
  intro item hitem step hstep
  rcases List.mem_append.1 hitem with hitem | hitem
  · exact h item hitem step hstep
  · rw [List.mem_singleton.1 hitem] at hstep
    rw [List.mem_singleton.1 hstep]
    rfl

end AllBring

/-- The steps that joins between different tables make bring in a table each. -/
theorem allBring_joinedItems (b : Block) : AllBring (joinedItems b) := by
  refine Stage.settle_induction (fun items l next grown h => h.attach?)
    (fun items l h => h.seed b.tables l) fun item hitem => ?_
  obtain ⟨t, -, rfl⟩ := List.mem_map.1 hitem
  exact fun step hstep => absurd hstep List.not_mem_nil

/-! ## Which joins are written, and how often -/

/-- What a clause writes: the joins between two different tables, and those that lead nowhere, each
as often as it is drawn. -/
theorem written_fromItems_perm (h : b.tables ≠ []) :
    (written (fromItems b)).Perm
      ((b.joins.filter fun j => (link? b j).any fun l => l.source.id ≠ l.target.id) ++
        b.joins.filter fun j => (link? b j).isNone) := by
  have halone : ∀ joins : List Join,
      (joins.map (stepOf · none)).flatMap (·.conditions) = joins := by
    intro joins
    rw [List.flatMap_map]
    exact List.flatMap_singleton' joins
  have hsteps := (steps_fromItems_perm h).flatMap_right (·.conditions)
  rw [List.flatMap_append, halone, ← written_eq, ← written_eq] at hsteps
  refine hsteps.trans ?_
  rw [← map_join_links]
  exact (joinedItems_arranged b).2.append_right _

theorem count_written_of_connects (h : j.Connects b s t) :
    (written (fromItems b)).count j = b.joins.count j := by
  obtain ⟨hlink, hdistinct⟩ := connects_iff.1 h
  have hnot : j ∉ b.joins.filter fun j => (link? b j).isNone := by simp [hlink]
  rw [(written_fromItems_perm (List.ne_nil_of_mem h.ends.1)).count_eq, List.count_append,
    List.count_eq_zero_of_not_mem hnot, Nat.add_zero]
  exact List.count_filter (by simpa [hlink] using hdistinct)

theorem not_mem_written_of_isLoop (h : j.IsLoop b) : j ∉ written (fromItems b) := by
  obtain ⟨hthere, hsame⟩ := h
  obtain ⟨t, ht⟩ := Option.isSome_iff_exists.1 hthere
  have hlink : link? b j = some ⟨j, t, t⟩ := by simp only [link?, hsame, ht]
  have hne : b.tables ≠ [] := List.ne_nil_of_mem (List.mem_of_find?_eq_some ht)
  rw [(written_fromItems_perm hne).mem_iff]
  simp [hlink]

theorem count_steps_of_leadsNowhere (h : j.LeadsNowhere b) (hne : b.tables ≠ []) :
    (steps (fromItems b)).count (stepOf j none) = b.joins.count j := by
  have hlink := leadsNowhere_iff.1 h
  have hinjective : Function.Injective fun j => stepOf j none :=
    fun j j' heq => (List.cons.inj (congrArg JoinStep.conditions heq)).1
  have hnot : stepOf j none ∉ steps (joinedItems b) := by
    intro hmem
    obtain ⟨item, hitem, hstep⟩ := List.mem_flatMap.1 hmem
    exact absurd (allBring_joinedItems b item hitem _ hstep) (by simp [stepOf])
  rw [(steps_fromItems_perm hne).count_eq, List.count_append,
    List.count_eq_zero_of_not_mem hnot, Nat.zero_add,
    List.count_map_of_injective _ (fun j => stepOf j none) hinjective]
  exact List.count_filter (by simp [hlink])

/-- The step that carries a join that leads nowhere carries nothing else. -/
theorem eq_stepOf_of_leadsNowhere (h : j.LeadsNowhere b) (hstep : step ∈ steps (fromItems b))
    (hj : j ∈ step.conditions) : step = stepOf j none := by
  have hlink := leadsNowhere_iff.1 h
  by_cases hne : b.tables = []
  · rw [steps_of_no_tables hne] at hstep
    cases hstep
  rcases List.mem_append.1 ((steps_fromItems_perm hne).mem_iff.1 hstep) with hmem | hmem
  · have hwritten : j ∈ written (joinedItems b) := by
      rw [written_eq]
      exact List.mem_flatMap.2 ⟨step, hmem, hj⟩
    obtain ⟨l, hl, rfl⟩ := List.mem_map.1 ((joinedItems_arranged b).2.mem_iff.1 hwritten)
    rw [(mem_links.1 hl).2.1] at hlink
    cases hlink
  · obtain ⟨j', -, rfl⟩ := List.mem_map.1 hmem
    rw [List.mem_singleton.1 hj]

/-! ## What is in scope -/

/-- What comes before a member of a list without repetitions is in the part of the list before
it. -/
theorem mem_of_pair_sublist {α : Type} {a x : α} {before after : List α}
    (hnodup : (before ++ x :: after).Nodup) (h : List.Sublist [a, x] (before ++ x :: after)) :
    a ∈ before := by
  induction before with
  | nil =>
    cases h with
    | cons _ h => exact absurd (h.subset (by simp)) (List.nodup_cons.1 hnodup).1
    | cons_cons _ h => exact absurd (h.subset (by simp)) (List.nodup_cons.1 hnodup).1
  | cons y rest ih =>
    rw [List.cons_append] at hnodup h
    cases h with
    | cons _ h => exact List.mem_cons_of_mem y (ih (List.nodup_cons.1 hnodup).2 h)
    | cons_cons _ h => exact List.mem_cons_self

/-- The tables of an item, taken apart at a step that brings in one of them. -/
theorem FromItem.tables_split {k : Nat} (hstep : item.steps[k]? = some step)
    (hjoined : step.joined = some t) :
    ∃ after, item.tables = item.inScope k ++ t :: after := by
  obtain ⟨hk, hget⟩ := List.getElem?_eq_some_iff.1 hstep
  have hsteps : item.steps = item.steps.take k ++ step :: item.steps.drop (k + 1) := by
    rw [← hget, List.getElem_cons_drop, List.take_append_drop]
  refine ⟨(item.steps.drop (k + 1)).filterMap (·.joined), ?_⟩
  rw [FromItem.tables, hsteps, List.filterMap_append, List.filterMap_cons_some hjoined, ← hsteps]
  rfl

/-- The step that carries a join brings in one of its tables, and the other one is in scope. -/
theorem inScope_of_connects (hids : (b.tables.map (·.id)).Nodup) (hitem : item ∈ fromItems b)
    {k : Nat} (hstep : item.steps[k]? = some step) (hj : j ∈ step.conditions)
    (h : j.Connects b s t) :
    (step.joined = some t ∧ s ∈ item.inScope k) ∨ (step.joined = some s ∧ t ∈ item.inScope k) := by
  obtain ⟨harranged, -, -⟩ := fromItems_arranged b
  obtain ⟨hs, ht, hends⟩ := h.ends
  have hsound := harranged.sound item hitem
  have hties := hsound.steps step (List.mem_of_getElem? hstep)
  unfold JoinStep.Sound at hties
  split at hties
  · rename_i x hx
    obtain ⟨a, ha, htied⟩ := hties.2 j hj
    obtain ⟨after, htables⟩ := FromItem.tables_split hstep hx
    have hnodup : item.placed.Nodup := (List.nodup_flatMap.1 harranged.nodup).1 item hitem
    rw [FromItem.placed, htables, List.map_append, List.map_cons] at ha hnodup
    obtain ⟨u, hu, rfl⟩ := List.mem_map.1 (mem_of_pair_sublist hnodup ha)
    have hxmem : x ∈ b.tables := hsound.tables x (by simp [htables])
    have humem : u ∈ b.tables := hsound.tables u (by simp [htables, hu])
    have hsame {v w : Table} (hv : v ∈ b.tables) (hw : w ∈ b.tables) (hid : v.id = w.id) : v = w :=
      List.inj_on_of_nodup_map hids hv hw hid
    rcases htied.eq_or_eq hends with ⟨hus, hxt⟩ | ⟨hut, hxs⟩
    · rw [hx, hsame hxmem ht hxt, ← hsame humem hs hus]
      exact .inl ⟨rfl, hu⟩
    · rw [hx, hsame hxmem hs hxs, ← hsame humem ht hut]
      exact .inr ⟨rfl, hu⟩
  · have hnone := hties j hj
    rw [(connects_iff.1 h).1] at hnone
    cases hnone

/-- **No join is lost, written twice or out of scope.**  Joins between two different tables are
conditions as often as they are drawn, each of a step that brings in one of its tables while the
other one is in scope.  Joins of a table with itself are not written, and joins that lead nowhere
are the only conditions of steps without a table, one for each, if there is a table at all.  And
when the turn of a join comes whose tables are both in place, there is a step that takes it. -/
theorem joins_kept_in_scope (b : Block) (hids : (b.tables.map (·.id)).Nodup) :
    (∀ j s t, j.Connects b s t →
        (written (fromItems b)).count j = b.joins.count j ∧
          ∀ item ∈ fromItems b, ∀ k step, item.steps[k]? = some step → j ∈ step.conditions →
            (step.joined = some t ∧ s ∈ item.inScope k) ∨
              (step.joined = some s ∧ t ∈ item.inScope k)) ∧
      (∀ j, j.IsLoop b → ∀ step ∈ steps (fromItems b), j ∉ step.conditions) ∧
      (∀ j, j.LeadsNowhere b →
        (steps (fromItems b)).count (stepOf j none) =
            (if b.tables.isEmpty then 0 else b.joins.count j) ∧
          ∀ step ∈ steps (fromItems b), j ∈ step.conditions → step = stepOf j none) ∧
      ∀ n front l rest,
        ((Stage.round b.tables)^[n] (Stage.start b)).pending = front ++ l :: rest →
          ∀ p q,
            place? (pass ((Stage.round b.tables)^[n] (Stage.start b)).items front).1 l.source.id =
                some p →
              place? (pass ((Stage.round b.tables)^[n] (Stage.start b)).items front).1 l.target.id =
                  some q →
                p.item = q.item ∧ (if q.le p then p else q).place ≠ 0 := by
  refine ⟨fun j s t h => ⟨count_written_of_connects h, fun item hitem k step hstep hj =>
    inScope_of_connects hids hitem hstep hj h⟩, fun j h step hstep hj => ?_, fun j h => ⟨?_,
    fun step hstep hj => eq_stepOf_of_leadsNowhere h hstep hj⟩, ?_⟩
  · refine not_mem_written_of_isLoop h ?_
    rw [written_eq]
    exact List.mem_flatMap.2 ⟨step, hstep, hj⟩
  · by_cases hne : b.tables = []
    · rw [steps_of_no_tables hne, hne]
      rfl
    · rw [count_steps_of_leadsNowhere h hne, if_neg (by simpa using hne)]
  · intro n front l rest hturn p q hp hq
    by_cases hne : b.tables = []
    · have hnone : (Stage.start b).pending = [] :=
        List.eq_nil_iff_forall_not_mem.2 fun l hl =>
          List.ne_nil_of_mem (fits_of_mem_links hl).source hne
      rw [Stage.iterate_round (n := n) (by simp [hnone])] at hturn
      cases front <;> cases hturn
    · exact ((Stage.lastGrows_start hne).iterate b.tables n).later hturn hp hq

/-- Three tables joined in a circle, of which the first join has to wait, and a fourth table with a
join that leads nowhere and one that leads back to it. -/
def circled : Block :=
  { Block.empty with
    tables := [bareTable 0 "a", bareTable 1 "b", bareTable 2 "c", bareTable 3 "d"]
    joins := [bareJoin 4 1 2, bareJoin 5 0 1, bareJoin 6 2 0, bareJoin 7 3 9, bareJoin 8 3 3] }

/-- The join that waits adds its condition to the step of its later table. -/
theorem joins_kept_in_scope_circled :
    (circled.tables.map (·.id)).Nodup ∧
      (bareJoin 4 1 2).Connects circled (bareTable 1 "b") (bareTable 2 "c") ∧
      (written (fromItems circled)).count (bareJoin 4 1 2) = 1 ∧
      (bareJoin 8 3 3).IsLoop circled ∧
      (∀ step ∈ steps (fromItems circled), bareJoin 8 3 3 ∉ step.conditions) ∧
      (bareJoin 7 3 9).LeadsNowhere circled ∧
      (steps (fromItems circled)).count (stepOf (bareJoin 7 3 9) none) = 1 := by
  have hids : (circled.tables.map (·.id)).Nodup := by decide +kernel
  have hconnects : (bareJoin 4 1 2).Connects circled (bareTable 1 "b") (bareTable 2 "c") :=
    ⟨by decide +kernel, by decide +kernel, by decide +kernel⟩
  have hloop : (bareJoin 8 3 3).IsLoop circled := ⟨by decide +kernel, rfl⟩
  have hnowhere : (bareJoin 7 3 9).LeadsNowhere circled := .inr (by decide +kernel)
  obtain ⟨hkept, hloops, hstray, -⟩ := joins_kept_in_scope circled hids
  refine ⟨hids, hconnects, ?_, hloop, hloops _ hloop, hnowhere, ?_⟩
  · rw [(hkept _ _ _ hconnects).1]
    decide +kernel
  · rw [(hstray _ hnowhere).1]
    decide +kernel

end Sql

end QueryCanvas
