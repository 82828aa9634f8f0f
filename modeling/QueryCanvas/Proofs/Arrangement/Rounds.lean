import Mathlib.Logic.Function.Iterate
import QueryCanvas.Proofs.Arrangement.Arranged

/-!
# Joins are put in place in rounds

A round is one pass over the joins that wait.  If the pass brings in no table, the first join that
still waits begins an item.  Each round leaves fewer joins waiting, so after as many rounds as there
are joins none is left.

All the while only the last item can grow.  So a join whose tables are both in place ties two tables
of the last item, and the later of them was brought in by a step that takes the condition.
-/

set_option autoImplicit false

namespace QueryCanvas.Sql

/-- What stands between two rounds: the items, and the links that still wait. -/
structure Stage where
  items : List FromItem
  pending : List Link

namespace Stage

variable {b : Block} {tables : List Table} {s : Stage}

/-- One round: a pass, and an item that a link begins if the pass brought in no table. -/
def round (tables : List Table) (s : Stage) : Stage :=
  match pass s.items s.pending with
  | (next, l :: rest, false) => ⟨seed tables next l, rest⟩
  | (next, waiting, _) => ⟨next, waiting⟩

/-- What stands before the first round: the first table, and all links between different tables. -/
def start (b : Block) : Stage :=
  ⟨(b.tables.take 1).map fun t => { base := t, steps := [] }, links b⟩

/-! ## Rounds come to an end -/

theorem length_round (tables : List Table) (h : s.pending ≠ []) :
    (s.round tables).pending.length < s.pending.length := by
  have hlength := length_pass s.items s.pending
  have hpos : 0 < s.pending.length := List.length_pos_iff.2 h
  unfold round
  split
  · rename_i next l rest hpass
    rw [hpass] at hlength
    simp only [List.length_cons] at hlength
    show rest.length < s.pending.length
    omega
  · rename_i next waiting grown hidle hpass
    rw [hpass] at hlength
    show waiting.length < s.pending.length
    cases grown with
    | true =>
      simp only [Bool.toNat_true] at hlength
      omega
    | false =>
      cases waiting with
      | nil => exact hpos
      | cons l rest => exact (hidle l rest rfl rfl).elim

theorem settle_nil (items : List FromItem) : settle tables items [] = items :=
  settle_done (show pass items [] = (items, [], false) from rfl)

/-- A round does not change what comes of all rounds. -/
theorem settle_round (tables : List Table) (s : Stage) :
    settle tables (s.round tables).items (s.round tables).pending =
      settle tables s.items s.pending := by
  unfold round
  split
  · rename_i hpass
    exact (settle_idle hpass).symm
  · rename_i next waiting grown hidle hpass
    show settle tables next waiting = _
    cases waiting with
    | nil => rw [settle_nil, settle_done hpass]
    | cons l rest =>
      cases grown with
      | true => exact (settle_grown hpass (List.cons_ne_nil l rest)).symm
      | false => exact (hidle l rest rfl rfl).elim

/-- After as many rounds as there are links no link waits, and the items are settled. -/
theorem iterate_round {n : Nat} (h : s.pending.length ≤ n) :
    (round tables)^[n] s = ⟨settle tables s.items s.pending, []⟩ := by
  induction n generalizing s with
  | zero =>
    have hnone : s.pending = [] := List.length_eq_zero_iff.1 (Nat.le_zero.1 h)
    rw [Function.iterate_zero, id, hnone, settle_nil, ← hnone]
  | succ n ih =>
    have hfewer : (s.round tables).pending.length ≤ n := by
      by_cases hnone : s.pending = []
      · have hround : s.round tables = ⟨s.items, []⟩ := by rw [round, hnone]; rfl
        rw [hround]
        exact Nat.zero_le n
      · have hless := length_round tables hnone
        omega
    rw [Function.iterate_succ_apply, ih hfewer, settle_round]

/-! ## What each join keeps -/

/-- What putting a link in place keeps, and beginning an item with one, holds after all rounds. -/
theorem settle_induction {P : List FromItem → Prop}
    (hattach : ∀ items l next grown, P items → attach? items l = some (next, grown) → P next)
    (hseed : ∀ items l, P items → P (seed tables items l)) {items : List FromItem}
    {pending : List Link} (h : P items) : P (settle tables items pending) := by
  have hpass : ∀ links items, P items → P (pass items links).1 := by
    intro links
    induction links with
    | nil => exact fun items h => h
    | cons l rest ih =>
      intro items h
      rw [pass]
      split
      · rename_i next grown hnext
        exact ih next (hattach items l next grown h hnext)
      · exact ih items h
  induction items, pending using settle.induct tables with
  | case1 items pending next grown hdone =>
    have hnext := hpass pending items h
    rw [hdone] at hnext
    rw [settle_done hdone]
    exact hnext
  | case2 items pending next waiting hne hgrown ih =>
    have hnext := hpass pending items h
    rw [hgrown] at hnext
    rw [settle_grown hgrown hne]
    exact ih hnext
  | case3 items pending next l rest hidle ih =>
    have hnext := hpass pending items h
    rw [hidle] at hnext
    rw [settle_idle hidle]
    exact ih (hseed next l hnext)

/-! ## Only the last item grows -/

/-- The items are arranged, and no link that waits reaches a table of an item before the last. -/
def LastGrows (b : Block) (s : Stage) : Prop :=
  ∃ before item, s.items = before ++ [item] ∧ Arranged b s.items ∧ ∀ l ∈ s.pending, l.Waits b before

theorem LastGrows.round (h : s.LastGrows b) (tables : List Table) :
    (s.round tables).LastGrows b := by
  obtain ⟨before, item, hitems, harranged, hpending⟩ := h
  rw [hitems] at harranged
  unfold Stage.round
  split
  · rename_i next l rest hpass
    rw [hitems] at hpass
    obtain ⟨item', rfl, hnext, -, -, hidle⟩ := pass_arranged harranged hpending hpass
    obtain ⟨hl, hrest⟩ := List.forall_mem_cons.1 (hidle rfl)
    obtain ⟨first, hseed, hgrown, -⟩ := seed_arranged tables hnext hl
    refine ⟨before ++ [item'], first, hseed, ?_, hrest⟩
    rw [hseed]
    exact hgrown
  · rename_i next waiting grown hidle hpass
    rw [hitems] at hpass
    obtain ⟨item', rfl, hnext, -, hwaiting, -⟩ := pass_arranged harranged hpending hpass
    exact ⟨before, item', rfl, hnext, hwaiting⟩

theorem LastGrows.iterate (h : s.LastGrows b) (tables : List Table) (n : Nat) :
    ((Stage.round tables)^[n] s).LastGrows b := by
  induction n with
  | zero => exact h
  | succ n ih =>
    rw [Function.iterate_succ_apply']
    exact ih.round tables

theorem lastGrows_start (h : b.tables ≠ []) : (start b).LastGrows b := by
  cases htables : b.tables with
  | nil => exact absurd htables h
  | cons t rest =>
    have ht : t ∈ b.tables := by simp [htables]
    have hitems : (start b).items = [] ++ [{ base := t, steps := [] }] := by simp [start, htables]
    refine ⟨[], { base := t, steps := [] }, hitems, ?_, fun l hl => ?_⟩
    · rw [hitems]
      exact Arranged.append (by simp) (FromItem.sound_base ht)
        (by simp [placed, FromItem.placed_eq])
    · exact ⟨fits_of_mem_links hl, by simp [placed], by simp [placed]⟩

/-! ## Joins between two tables in place -/

/-- The later of two tables in place that a link ties was brought in by a step of their item. -/
theorem later_of_places {before : List FromItem} {item : FromItem} {l : Link} {p q : Place}
    (hl : l.Waits b before) (hp : place? (before ++ [item]) l.source.id = some p)
    (hq : place? (before ++ [item]) l.target.id = some q) :
    p.item = q.item ∧ (if q.le p then p else q).place ≠ 0 := by
  rw [place?_last hl.sourceLast] at hp
  rw [place?_last hl.targetLast] at hq
  obtain ⟨i, hi, rfl⟩ := Option.map_eq_some_iff.1 hp
  obtain ⟨j, hj, rfl⟩ := Option.map_eq_some_iff.1 hq
  refine ⟨rfl, fun hzero => hl.distinct ?_⟩
  have hboth : i = 0 ∧ j = 0 := by
    split at hzero <;> simp_all [Place.le]
  obtain ⟨rfl, rfl⟩ := hboth
  exact (FromItem.base_of_place? hi).symm.trans (FromItem.base_of_place? hj)

/-- In the pass of a round the items stand, when the turn of a link comes, as the links in front of
it leave them.  If both tables of the link are in place then, they are tables of one item, and a
step brought in the later of them. -/
theorem LastGrows.later (h : s.LastGrows b) {front rest : List Link} {l : Link} {p q : Place}
    (hturn : s.pending = front ++ l :: rest)
    (hp : place? (pass s.items front).1 l.source.id = some p)
    (hq : place? (pass s.items front).1 l.target.id = some q) :
    p.item = q.item ∧ (if q.le p then p else q).place ≠ 0 := by
  obtain ⟨before, item, hitems, harranged, hpending⟩ := h
  rw [hitems] at harranged hp hq
  rw [hturn] at hpending
  obtain ⟨hfront, hrest⟩ := List.forall_mem_append.1 hpending
  obtain ⟨hitem, -, hnodup⟩ := harranged.split
  obtain ⟨item', hpass, -⟩ := pass_sound hfront hitem hnodup
  rw [hpass] at hp hq
  exact later_of_places (List.forall_mem_cons.1 hrest).1 hp hq

end Stage

end QueryCanvas.Sql
