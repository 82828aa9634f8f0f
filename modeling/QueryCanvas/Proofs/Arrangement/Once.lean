import Mathlib.Data.List.Nodup
import Mathlib.Data.List.Pairwise
import Mathlib.Data.List.Perm.Subperm
import QueryCanvas.Proofs.Arrangement.Arranged

/-!
# Each join is written once

A join between two different tables is put in place once, a join that leads to a table that is not
there gets a step of its own, and a join of a table with itself is not written.  So no join is
written more often than it is drawn, and where no join is drawn twice, a written join tells the step
that it is a condition of.
-/

set_option autoImplicit false

namespace QueryCanvas.Sql

variable {b : Block} {j : Join} {l : Link}

/-! ## Steps -/

/-- The steps of an arrangement. -/
def steps (items : List FromItem) : List JoinStep := items.flatMap (·.steps)

theorem written_eq (items : List FromItem) :
    written items = (steps items).flatMap (·.conditions) := List.flatMap_assoc.symm

theorem steps_addStep_perm {items : List FromItem} {n : Nat} (step : JoinStep)
    (h : n < items.length) : (steps (addStep items n step)).Perm (steps items ++ [step]) := by
  unfold addStep
  induction items generalizing n with
  | nil => exact absurd h (Nat.not_lt_zero n)
  | cons item rest ih =>
    cases n with
    | zero =>
      rw [List.modify_zero_cons, steps, steps, List.flatMap_cons, List.flatMap_cons,
        List.append_assoc, List.append_assoc]
      exact List.perm_append_comm.append_left item.steps
    | succ n =>
      rw [List.modify_succ_cons, steps, steps, List.flatMap_cons, List.flatMap_cons,
        List.append_assoc]
      exact (ih (Nat.lt_of_succ_lt_succ h)).append_left item.steps

/-! ## Joins that lead nowhere -/

/-- A further step writes its conditions, if there is an item for it, and nothing else. -/
theorem written_addStep_subperm (items : List FromItem) (n : Nat) (step : JoinStep) :
    (written (addStep items n step)).Subperm (written items ++ step.conditions) := by
  by_cases h : n < items.length
  · have hperm := (steps_addStep_perm step h).flatMap_right (·.conditions)
    rw [List.flatMap_append, List.flatMap_singleton, ← written_eq, ← written_eq] at hperm
    exact hperm.subperm
  · have hsame : addStep items n step = items := List.modify_eq_self (Nat.le_of_not_lt h)
    rw [hsame]
    exact (List.sublist_append_left _ _).subperm

theorem written_foldl_addUnresolved_subperm (joins : List Join) (items : List FromItem) :
    (written (joins.foldl addUnresolved items)).Subperm (written items ++ joins) := by
  induction joins generalizing items with
  | nil => rw [List.append_nil]; exact List.Subperm.refl _
  | cons j rest ih =>
    rw [List.foldl_cons, ← List.singleton_append, ← List.append_assoc]
    exact (ih (addUnresolved items j)).trans
      ((written_addStep_subperm items _ (stepOf j none)).append (List.Subperm.refl rest))

/-! ## All joins -/

/-- The joins between two different tables, in the order in which they are drawn. -/
theorem map_join_links (b : Block) :
    (links b).map (·.join) =
      b.joins.filter fun j => (link? b j).any fun l => l.source.id ≠ l.target.id := by
  unfold links
  induction b.joins with
  | nil => rfl
  | cons j rest ih =>
    cases hlink : link? b j with
    | none => rw [List.filterMap_cons_none hlink, List.filter_cons_of_neg (by simp [hlink]), ih]
    | some l =>
      rw [List.filterMap_cons_some hlink]
      by_cases hdistinct : l.source.id = l.target.id
      · rw [List.filter_cons_of_neg (by simpa using hdistinct),
          List.filter_cons_of_neg (by simpa [hlink] using hdistinct), ih]
      · rw [List.filter_cons_of_pos (by simpa using hdistinct),
          List.filter_cons_of_pos (by simpa [hlink] using hdistinct), List.map_cons, ih,
          join_of_link? hlink]

/-- What is written: the joins between two different tables, and joins that lead nowhere. -/
theorem written_fromItems_subperm (b : Block) :
    (written (fromItems b)).Subperm
      ((links b).map (·.join) ++ b.joins.filter fun j => (link? b j).isNone) := by
  obtain ⟨hjoined, hperm⟩ := joinedItems_arranged b
  obtain ⟨-, hsame⟩ := foldl_addAlone_arranged hjoined fun _ ht => ht
  have hwritten := written_foldl_addUnresolved_subperm
    (b.joins.filter fun j => (link? b j).isNone) (b.tables.foldl addAlone (joinedItems b))
  rw [hsame] at hwritten
  exact hwritten.trans (hperm.subperm.append (List.Subperm.refl _))

/-- No join is written more often than it is drawn. -/
theorem written_subperm_joins (b : Block) : (written (fromItems b)).Subperm b.joins := by
  refine (written_fromItems_subperm b).trans ?_
  rw [map_join_links]
  refine List.Subperm.trans ((List.Subperm.refl _).append (List.Sublist.subperm ?_))
    (List.filter_append_perm _ b.joins).subperm
  refine List.monotone_filter_right _ fun j hj => ?_
  simp [Option.isNone_iff_eq_none.1 hj]

/-- A join that leads to two tables is written exactly if they are two. -/
theorem mem_written_iff (hj : j ∈ b.joins) (hlink : link? b j = some l) :
    j ∈ written (fromItems b) ↔ l.source.id ≠ l.target.id := by
  constructor
  · intro hwritten
    rcases List.mem_append.1 ((written_fromItems_subperm b).subset hwritten) with h | h
    · obtain ⟨l', hl', rfl⟩ := List.mem_map.1 h
      obtain ⟨-, hlink', hdistinct⟩ := mem_links.1 hl'
      rw [hlink] at hlink'
      cases hlink'
      exact hdistinct
    · have hnone := (List.mem_filter.1 h).2
      rw [hlink] at hnone
      cases hnone
  · intro hdistinct
    obtain rfl := join_of_link? hlink
    exact (fromItems_arranged b).2.1 l (mem_links.2 ⟨hj, hlink, hdistinct⟩)

/-! ## One step for each join -/

/-- A member of a list whose parts have nothing in common is told by a part of it. -/
theorem eq_of_mem_flatMap {α β : Type} {f : α → List β} {l : List α} (h : (l.flatMap f).Nodup)
    {a a' : α} (ha : a ∈ l) (ha' : a' ∈ l) {x : β} (hx : x ∈ f a) (hx' : x ∈ f a') : a = a' := by
  have hsymm : Std.Symm (Function.onFun List.Disjoint f) := ⟨fun _ _ h _ hx hx' => h hx' hx⟩
  by_contra hne
  exact (List.nodup_flatMap.1 h).2.forall ha ha' hne hx hx'

/-- Where no join is drawn twice, a join is a condition of one step only. -/
theorem step_unique (hjoins : b.joins.Nodup) {s s' : JoinStep} (hs : s ∈ steps (fromItems b))
    (hs' : s' ∈ steps (fromItems b)) (hj : j ∈ s.conditions) (hj' : j ∈ s'.conditions) :
    s = s' := by
  obtain ⟨joins, hperm, hsub⟩ := written_subperm_joins b
  have hnodup : (written (fromItems b)).Nodup := hperm.nodup_iff.1 (hjoins.sublist hsub)
  rw [written_eq] at hnodup
  exact eq_of_mem_flatMap hnodup hs hs' hj hj'

end QueryCanvas.Sql
