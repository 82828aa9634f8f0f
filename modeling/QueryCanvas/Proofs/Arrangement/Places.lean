import QueryCanvas.Sql.Arrangement

/-!
# Where tables stand in a `FROM` clause

The tables in place are listed in the order in which they are written.  Looking up the place of a
table takes the items apart at the table, and places are ordered as the tables are listed.
-/

set_option autoImplicit false

namespace QueryCanvas.Sql

/-- The identifiers of the tables of an item, in the order in which it writes them. -/
def FromItem.placed (item : FromItem) : List EntityId := item.tables.map (·.id)

/-- The identifiers of the tables in place, in the order in which they are written. -/
def placed (items : List FromItem) : List EntityId := items.flatMap FromItem.placed

/-- The joins that an item writes as conditions. -/
def FromItem.written (item : FromItem) : List Join := item.steps.flatMap (·.conditions)

/-- The joins that are written as conditions. -/
def written (items : List FromItem) : List Join := items.flatMap FromItem.written

/-- One table in place is written before another one. -/
def Before (items : List FromItem) (a b : EntityId) : Prop := List.Sublist [a, b] (placed items)

theorem FromItem.placed_eq (item : FromItem) :
    item.placed = item.base.id :: item.steps.filterMap fun s => s.joined.map (·.id) := by
  rw [placed, tables, List.map_cons, List.map_filterMap]

/-- The step that brings in a table. -/
def JoinStep.brings (id : EntityId) (s : JoinStep) : Bool := s.joined.any (·.id = id)

theorem JoinStep.brings_iff {id : EntityId} {s : JoinStep} :
    s.brings id ↔ ∃ t, s.joined = some t ∧ t.id = id := by
  cases h : s.joined <;> simp [brings, h]

/-! ## Steps -/

theorem exists_of_findIdx? {α : Type} {p : α → Bool} {l : List α} {i : Nat}
    (h : l.findIdx? p = some i) :
    ∃ before a after, l = before ++ a :: after ∧ before.length = i ∧ p a := by
  induction l generalizing i with
  | nil => cases h
  | cons a rest ih =>
    rw [List.findIdx?_cons] at h
    split at h
    · rename_i ha
      cases h
      exact ⟨[], a, rest, rfl, rfl, ha⟩
    · obtain ⟨i, hi, rfl⟩ := Option.map_eq_some_iff.1 h
      obtain ⟨before, b, after, rfl, rfl, hb⟩ := ih hi
      exact ⟨a :: before, b, after, rfl, rfl, hb⟩

theorem modify_append {α : Type} (f : α → α) (before : List α) (a : α) (after : List α) :
    (before ++ a :: after).modify before.length f = before ++ f a :: after := by
  induction before with
  | nil => rfl
  | cons b rest ih => simpa using ih

/-- A table that is brought in is among the tables of the steps. -/
theorem mem_joined {id : EntityId} {steps : List JoinStep} :
    id ∈ steps.filterMap (fun s => s.joined.map (·.id)) ↔ ∃ s ∈ steps, s.brings id := by
  simp [List.mem_filterMap, JoinStep.brings_iff]

/-- Tables are listed in the order of the steps that bring them in. -/
theorem joined_sublist {a b : EntityId} {steps : List JoinStep} {i j : Nat} (hne : a ≠ b)
    (ha : steps.findIdx? (·.brings a) = some i) (hb : steps.findIdx? (·.brings b) = some j)
    (hij : i ≤ j) : List.Sublist [a, b] (steps.filterMap fun s => s.joined.map (·.id)) := by
  induction steps generalizing i j with
  | nil => cases ha
  | cons s rest ih =>
    rw [List.findIdx?_cons] at ha hb
    cases hsa : s.brings a with
    | true =>
      obtain ⟨t, ht, rfl⟩ := JoinStep.brings_iff.1 hsa
      have hsb : s.brings b = false := by
        simp [JoinStep.brings, ht, hne]
      rw [hsb] at hb
      obtain ⟨j, hj, rfl⟩ := Option.map_eq_some_iff.1 hb
      obtain ⟨before, r, after, rfl, -, hr⟩ := exists_of_findIdx? hj
      rw [List.filterMap_cons, ht]
      refine List.Sublist.cons_cons t.id (List.singleton_sublist.2 (mem_joined.2 ⟨r, ?_, hr⟩))
      simp
    | false =>
      rw [hsa] at ha
      obtain ⟨i, hi, rfl⟩ := Option.map_eq_some_iff.1 ha
      cases hsb : s.brings b with
      | true =>
        rw [hsb] at hb
        cases hb
        exact absurd hij (Nat.not_succ_le_zero i)
      | false =>
        rw [hsb] at hb
        obtain ⟨j, hj, rfl⟩ := Option.map_eq_some_iff.1 hb
        have hrest := ih hi hj (Nat.le_of_succ_le_succ hij)
        rw [List.filterMap_cons]
        split
        · exact hrest
        · exact hrest.cons _

/-! ## Items -/

namespace FromItem

variable {item : FromItem} {id : EntityId}

theorem place?_eq (item : FromItem) (id : EntityId) :
    item.place? id =
      if item.base.id = id then some 0 else (item.steps.findIdx? (·.brings id)).map (· + 1) :=
  rfl

/-- A table of an item is its first one, or a step brings it in. -/
theorem exists_of_place? {k : Nat} (h : item.place? id = some k) :
    (k = 0 ∧ item.base.id = id) ∨ ∃ before s after t, item.steps = before ++ s :: after ∧
      k = before.length + 1 ∧ s.joined = some t ∧ t.id = id := by
  rw [place?_eq] at h
  split at h
  · rename_i hbase
    cases h
    exact .inl ⟨rfl, hbase⟩
  · obtain ⟨i, hi, rfl⟩ := Option.map_eq_some_iff.1 h
    obtain ⟨before, s, after, hsteps, rfl, hs⟩ := Sql.exists_of_findIdx? hi
    obtain ⟨t, ht, hid⟩ := JoinStep.brings_iff.1 hs
    exact .inr ⟨before, s, after, t, hsteps, rfl, ht, hid⟩

theorem place?_isSome : (item.place? id).isSome ↔ id ∈ item.placed := by
  rw [place?_eq, placed_eq, List.mem_cons, mem_joined]
  split
  · rename_i hbase
    simp [hbase]
  · rename_i hbase
    simp [List.findIdx?_isSome, Ne.symm hbase]

/-- The tables of an item are listed in the order of their places. -/
theorem pair_sublist {a b : EntityId} {i j : Nat} (hne : a ≠ b) (ha : item.place? a = some i)
    (hb : item.place? b = some j) (hij : i ≤ j) : List.Sublist [a, b] item.placed := by
  rw [placed_eq]
  rw [place?_eq] at ha hb
  by_cases hbase : item.base.id = a
  · have hother : item.base.id ≠ b := fun h => hne (hbase.symm.trans h)
    rw [if_neg hother] at hb
    obtain ⟨j, hj, rfl⟩ := Option.map_eq_some_iff.1 hb
    obtain ⟨before, s, after, hsteps, -, hs⟩ := exists_of_findIdx? hj
    rw [hbase]
    refine List.Sublist.cons_cons a (List.singleton_sublist.2 (mem_joined.2 ⟨s, ?_, hs⟩))
    simp [hsteps]
  · rw [if_neg hbase] at ha
    obtain ⟨i, hi, rfl⟩ := Option.map_eq_some_iff.1 ha
    split at hb
    · cases hb
      exact absurd hij (Nat.not_succ_le_zero i)
    · obtain ⟨j, hj, rfl⟩ := Option.map_eq_some_iff.1 hb
      exact (joined_sublist hne hi hj (Nat.le_of_succ_le_succ hij)).cons _

end FromItem

/-! ## Places -/

theorem placeFrom?_isSome {id : EntityId} {n : Nat} {items : List FromItem} :
    (placeFrom? id n items).isSome ↔ id ∈ placed items := by
  induction items generalizing n with
  | nil => simp [placeFrom?, placed]
  | cons item rest ih =>
    rw [placeFrom?, placed, List.flatMap_cons, List.mem_append, ← FromItem.place?_isSome]
    split
    · rename_i hplace
      simp [hplace]
    · rename_i hplace
      rw [ih, hplace]
      simp [placed]

theorem place?_isSome {id : EntityId} {items : List FromItem} :
    (place? items id).isSome ↔ id ∈ placed items := placeFrom?_isSome

theorem exists_of_placeFrom? {id : EntityId} {n : Nat} {items : List FromItem} {p : Place}
    (h : placeFrom? id n items = some p) :
    ∃ before item after, items = before ++ item :: after ∧ p.item = n + before.length ∧
      item.place? id = some p.place := by
  induction items generalizing n with
  | nil => cases h
  | cons item rest ih =>
    rw [placeFrom?] at h
    split at h
    · rename_i k hplace
      cases h
      exact ⟨[], item, rest, rfl, rfl, hplace⟩
    · obtain ⟨before, found, after, rfl, hitem, hplace⟩ := ih h
      refine ⟨item :: before, found, after, rfl, ?_, hplace⟩
      rw [hitem, List.length_cons]
      omega

/-- A table in place takes the items apart at its item. -/
theorem exists_of_place? {id : EntityId} {items : List FromItem} {p : Place}
    (h : place? items id = some p) :
    ∃ before item after, items = before ++ item :: after ∧ p.item = before.length ∧
      item.place? id = some p.place := by
  obtain ⟨before, item, after, hitems, hitem, hplace⟩ := exists_of_placeFrom? h
  exact ⟨before, item, after, hitems, by omega, hplace⟩

theorem Before.antisymm {items : List FromItem} (hnodup : (placed items).Nodup) {a b : EntityId}
    (hab : Before items a b) (hba : Before items b a) : False := by
  unfold Before at hab hba
  generalize placed items = ids at hnodup hab hba
  induction ids with
  | nil => cases hab
  | cons c rest ih =>
    obtain ⟨hfirst, hrest⟩ := List.nodup_cons.1 hnodup
    cases hab with
    | cons _ hab =>
      cases hba with
      | cons _ hba => exact ih hrest hab hba
      | cons_cons _ hba => exact hfirst (hab.subset (by simp))
    | cons_cons _ hab =>
      cases hba with
      | cons _ hba => exact hfirst (hba.subset (by simp))
      | cons_cons _ hba => exact hfirst (hba.subset (by simp))

end QueryCanvas.Sql
