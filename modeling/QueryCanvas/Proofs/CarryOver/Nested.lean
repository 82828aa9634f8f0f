import QueryCanvas.Proofs.CarryOver.Aggregates

/-!
# Which nested query takes over from which

Nested queries are matched one after the other, each with the first one of its role that is left.
The two walks along this matching, the one that carries the nested queries over and the one that
notes their new identifiers, are both read off the list of matched pairs.
-/

set_option autoImplicit false

namespace QueryCanvas

/-- The first member that satisfies a test, and the rest. -/
theorem perm_cons_eraseP {α : Type} {p : α → Bool} {a : α} {l : List α} (h : l.find? p = some a) :
    (a :: l.eraseP p).Perm l := by
  induction l with
  | nil => cases h
  | cons b rest ih =>
    rw [List.find?_cons] at h
    rw [List.eraseP_cons]
    cases hb : p b with
    | true =>
      rw [hb] at h
      cases h
      exact List.Perm.refl _
    | false =>
      rw [hb] at h
      exact (List.Perm.swap b a _).trans ((ih h).cons b)

namespace Block

/-- Nested queries, each with the one before that it takes over from. -/
def paired : List Subquery → List Subquery → List (Subquery × Option Subquery)
  | _, [] => []
  | olds, s :: rest =>
    match olds.find? (·.role = s.role) with
    | none => (s, none) :: paired olds rest
    | some old => (s, some old) :: paired (olds.eraseP (·.role = s.role)) rest

/-- A nested query with what it takes over. -/
def carriedSubquery : Subquery × Option Subquery → Subquery
  | (s, none) => s
  | (s, some old) =>
    { s with id := old.id, frame := old.frame, block := old.block.carryOver s.block }

/-- The identifiers of matched nested queries. -/
def subqueryMatches (olds subs : List Subquery) : List (EntityId × Option EntityId) :=
  (paired olds subs).map fun p => (p.1.id, p.2.map (·.id))

theorem carryNested_eq (olds subs : List Subquery) :
    carryNested olds subs = (paired olds subs).map carriedSubquery := by
  induction subs generalizing olds with
  | nil => rfl
  | cons s rest ih =>
    cases hfind : olds.find? (·.role = s.role) with
    | none => simp only [carryNested, paired, hfind, ih, List.map_cons, carriedSubquery]
    | some old => simp only [carryNested, paired, hfind, ih, List.map_cons, carriedSubquery]

theorem subqueryRenaming_eq (olds subs : List Subquery) :
    subqueryRenaming olds subs = Renaming.ofMatches (subqueryMatches olds subs) := by
  induction subs generalizing olds with
  | nil => rfl
  | cons s rest ih =>
    cases hfind : olds.find? (·.role = s.role) with
    | none =>
      simp only [subqueryRenaming, subqueryMatches, paired, hfind, ih]
      rfl
    | some old =>
      simp only [subqueryRenaming, subqueryMatches, paired, hfind, ih]
      rfl

theorem map_fst_paired (olds subs : List Subquery) : (paired olds subs).map (·.1) = subs := by
  induction subs generalizing olds with
  | nil => rfl
  | cons s rest ih =>
    rw [paired]
    split <;> rw [List.map_cons, ih]

/-- No nested query before is taken over from twice. -/
theorem paired_olds_subperm (olds subs : List Subquery) :
    ((paired olds subs).filterMap (·.2)).Subperm olds := by
  induction subs generalizing olds with
  | nil => exact List.nil_subperm
  | cons s rest ih =>
    rw [paired]
    split
    · exact ih olds
    · rename_i old hold
      exact ((List.subperm_cons old).2 (ih _)).trans (perm_cons_eraseP hold).subperm

theorem mem_paired {olds subs : List Subquery} {p : Subquery × Option Subquery}
    (h : p ∈ paired olds subs) : p.1 ∈ subs ∧ ∀ old ∈ p.2, old ∈ olds := by
  constructor
  · have hmem := List.mem_map_of_mem (f := (·.1)) h
    rwa [map_fst_paired] at hmem
  · intro old hold
    exact (paired_olds_subperm olds subs).subset (List.mem_filterMap.2 ⟨p, h, hold⟩)

theorem exists_paired (olds : List Subquery) {subs : List Subquery} {s : Subquery} (h : s ∈ subs) :
    ∃ p ∈ paired olds subs, p.1 = s := by
  rw [← map_fst_paired olds subs] at h
  exact List.mem_map.1 h

theorem carriedSubquery_id (p : Subquery × Option Subquery) :
    (carriedSubquery p).id = Renaming.kept (p.1.id, p.2.map (·.id)) := by
  obtain ⟨s, _ | old⟩ := p <;> rfl

theorem carriedSubquery_role (p : Subquery × Option Subquery) :
    (carriedSubquery p).role = p.1.role ∧ (carriedSubquery p).aliasName = p.1.aliasName := by
  obtain ⟨s, _ | old⟩ := p <;> exact ⟨rfl, rfl⟩

theorem map_carriedSubquery_id (olds subs : List Subquery) :
    (carryNested olds subs).map (·.id) = (subqueryMatches olds subs).map Renaming.kept := by
  rw [carryNested_eq, subqueryMatches, List.map_map, List.map_map]
  exact List.map_congr_left fun p _ => carriedSubquery_id p

theorem subqueryMatches_news (olds subs : List Subquery) :
    (subqueryMatches olds subs).map (·.1) = subs.map (·.id) := by
  rw [subqueryMatches, List.map_map, ← map_fst_paired olds subs, List.map_map, map_fst_paired]
  rfl

/-- Nested queries of different identifiers are matched with different ones. -/
theorem matching_subqueries {olds subs : List Subquery} (hold : (olds.map (·.id)).Nodup)
    (hnew : (subs.map (·.id)).Nodup) (hapart : ∀ id ∈ olds.map (·.id), id ∉ subs.map (·.id)) :
    Matching (subqueryMatches olds subs) := by
  have holds : (subqueryMatches olds subs).filterMap (·.2) =
      ((paired olds subs).filterMap (·.2)).map (·.id) := by
    rw [subqueryMatches, List.filterMap_map, List.map_filterMap]
    rfl
  obtain ⟨some?, hperm, hsub⟩ := paired_olds_subperm olds subs
  have hperm := hperm.map (·.id)
  have hsub := hsub.map (·.id)
  refine ⟨?_, ?_, fun id hid => ?_⟩
  · rw [subqueryMatches_news]
    exact hnew
  · rw [holds]
    exact hperm.nodup_iff.1 (hold.sublist hsub)
  · rw [subqueryMatches_news]
    rw [holds] at hid
    exact hapart id (hsub.subset (hperm.mem_iff.2 hid))

end Block

end QueryCanvas
