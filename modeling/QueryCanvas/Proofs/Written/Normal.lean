import Mathlib.Order.MinMax
import QueryCanvas.Proofs.Canvas.Results
import QueryCanvas.Proofs.Sql.ResultNames
import QueryCanvas.Proofs.Written.Forms

/-!
# The normal form of a select

What a select is written as once it was read: the chosen columns of each table stand together and
come first, then the aggregates, then the nested queries.  Values in lists, ranges and conditions on
groups are printed.  What ties the last condition is of no meaning.  A select in normal form stays
as it is, and it needs no more levels of the grammar.
-/

set_option autoImplicit false

namespace QueryCanvas.Sql

open Block (addNew mem_addNew)

/-! ## Parts that are read again -/

/-- The value as it is printed. -/
def Listed.reread (v : Listed) : Listed :=
  { v with text := v.part.value.printed, written := v.written.printed v.word }

namespace WrittenTest

variable {ν : Type}

def reread : WrittenTest ν → WrittenTest ν
  | among negated items hne => among negated (items.map Listed.reread) (by simpa using hne)
  | range negated low high => range negated low.reread high.reread
  | t => t

@[simp] theorem reread_reread (t : WrittenTest ν) : t.reread.reread = t.reread := by
  cases t <;> simp [reread, Listed.reread, Function.comp_def]

@[simp] theorem part_reread (p : ν → Part Query) (s : Part Expr) (t : WrittenTest ν) :
    t.reread.part p s = t.part p s := by
  cases t <;> simp [reread, part, Listed.reread, Function.comp_def]

@[simp] theorem nested_reread (t : WrittenTest ν) : t.reread.nested = t.nested := by
  cases t <;> rfl

end WrittenTest

variable {ν : Type}

def WrittenCondition.reread (c : WrittenCondition ν) : WrittenCondition ν :=
  { c with test := c.test.reread }

def WrittenHaving.reread (h : WrittenHaving) : WrittenHaving := { h with value := h.value.reread }

/-! ## Members of a chain -/

/-- The members of a chain, of which the last one is tied by `AND` to nothing. -/
def closed {α : Type} (l : List (α × Connector)) : List (α × Connector) :=
  updateLast (fun x => (x.1, .and)) l

theorem closed_cons {α : Type} (a : α) (k : Connector) (l : List (α × Connector)) :
    closed ((a, k) :: l) = (a, tieOr k .and l) :: closed l := updateLast_cons a k .and l

theorem closed_eq_nil {α : Type} {l : List (α × Connector)} : closed l = [] ↔ l = [] := by
  cases l with
  | nil => simp [closed, updateLast]
  | cons x l =>
    obtain ⟨a, k⟩ := x
    simp [closed_cons]

theorem closed_closed {α : Type} (l : List (α × Connector)) : closed (closed l) = closed l := by
  induction l with
  | nil => rfl
  | cons x l ih =>
    obtain ⟨a, k⟩ := x
    rw [closed_cons, closed_cons, ih]
    cases l with
    | nil => rfl
    | cons y l =>
      have hne : closed (y :: l) ≠ [] := by simp [closed_eq_nil]
      simp [tieOr, hne]

theorem map_closed {α β : Type} (f : α → β) (l : List (α × Connector)) :
    (closed l).map (fun x => (f x.1, x.2)) = closed (l.map fun x => (f x.1, x.2)) := by
  induction l with
  | nil => rfl
  | cons x l ih =>
    obtain ⟨a, k⟩ := x
    rw [closed_cons, List.map_cons, List.map_cons, closed_cons, ih]
    cases l <;> rfl

theorem mem_closed {α : Type} {l : List (α × Connector)} {x : α × Connector} (h : x ∈ closed l) :
    ∃ y ∈ l, y.1 = x.1 := by
  induction l with
  | nil => cases h
  | cons y l ih =>
    obtain ⟨a, k⟩ := y
    rw [closed_cons, List.mem_cons] at h
    rcases h with rfl | h
    · exact ⟨(a, k), List.mem_cons_self, rfl⟩
    · obtain ⟨z, hz, heq⟩ := ih h
      exact ⟨z, List.mem_cons_of_mem _ hz, heq⟩

/-! ## Lists of columns -/

/-- The chosen columns of a table, those that it declares in front and in the declared order. -/
def listed (declared chosen : List String) : List String :=
  declared.filter (chosen.contains ·) ++ chosen.filter (!declared.contains ·)

theorem orderedSelection_eq (t : Table) : t.orderedSelection = listed t.columns t.selected := rfl

theorem mem_listed {declared chosen : List String} {c : String} :
    c ∈ listed declared chosen ↔ c ∈ chosen := by
  simp only [listed, List.mem_append, List.mem_filter, List.contains_iff_mem, Bool.not_eq_true',
    ← Bool.not_eq_true]
  by_cases h : c ∈ declared <;> simp [h]

theorem nodup_listed {declared chosen : List String} (hd : declared.Nodup) (hc : chosen.Nodup) :
    (listed declared chosen).Nodup := by
  refine List.nodup_append.2 ⟨hd.filter _, hc.filter _, ?_⟩
  rintro a ha b hb rfl
  have hin := (List.mem_filter.1 ha).1
  have hout := (List.mem_filter.1 hb).2
  simp [hin] at hout

theorem listed_listed {declared chosen : List String} :
    listed declared (listed declared chosen) = listed declared chosen := by
  have hfront : declared.filter ((listed declared chosen).contains ·) =
      declared.filter (chosen.contains ·) := by
    refine List.filter_congr fun c _ => ?_
    rw [Bool.eq_iff_iff, List.contains_iff_mem, List.contains_iff_mem, mem_listed]
  have hback : (listed declared chosen).filter (!declared.contains ·) =
      chosen.filter (!declared.contains ·) := by
    rw [listed, List.filter_append, List.filter_filter, List.filter_eq_nil_iff.2, List.nil_append]
    · simp
    · intro c hc
      simp [hc]
  rw [listed, hfront, hback]
  rfl

theorem addNew_of_nodup {l : List String} (h : l.Nodup) : addNew [] l = l := by
  have hmore : ∀ known, (known ++ l).Nodup → addNew known l = known ++ l := by
    induction l with
    | nil => exact fun known _ => (List.append_nil known).symm
    | cons a l ih =>
      intro known hknown
      have hnew : a ∉ known := fun ha =>
        (List.nodup_append.1 hknown).2.2 a ha a List.mem_cons_self rfl
      have hstep : addNew known (a :: l) = addNew (known ++ [a]) l := by
        rw [addNew, List.foldl_cons, if_neg (by simpa using hnew)]
        rfl
      rw [List.append_cons] at hknown ⊢
      rw [hstep, ih (List.nodup_cons.1 h).2 _ hknown]
  exact hmore [] h

/-- Chosen once more in the order in which they are listed, columns are listed as they were. -/
theorem listed_addNew {declared chosen : List String} (hd : declared.Nodup) (hc : chosen.Nodup) :
    listed declared (addNew [] (listed declared chosen)) = listed declared chosen := by
  rw [addNew_of_nodup (nodup_listed hd hc), listed_listed]

/-! ## Results by their kinds -/

/-- Columns, then aggregates, then nested queries. -/
def sorted (columns : List TableColumn) (calls : List WrittenCall)
    (scalars : List (ν × Option String)) : List (WrittenResult ν) :=
  columns.map .column ++ calls.map .call ++ scalars.map fun d => .scalar d.1 d.2

section Sorted

variable (columns : List TableColumn) (calls : List WrittenCall)
  (scalars : List (ν × Option String))

theorem filterMap_column_sorted :
    (sorted columns calls scalars).filterMap (·.column?) = columns := by
  simp [sorted, List.filterMap_map, WrittenResult.column?]

theorem filterMap_call_sorted : (sorted columns calls scalars).filterMap (·.call?) = calls := by
  simp [sorted, List.filterMap_map, WrittenResult.call?]

theorem filterMap_scalar_sorted :
    (sorted columns calls scalars).filterMap (·.scalar?) = scalars := by
  simp [sorted, List.filterMap_map, WrittenResult.scalar?]

end Sorted

/-! ## The normal form -/

namespace WrittenSelect

/-- The columns among the results that are of the table of that name. -/
def chosen (x : WrittenSelect ν) (table : String) : List String :=
  ((x.results.filterMap (·.column?)).filter (·.table = table)).map (·.column)

variable (δ : String → List String) (x : WrittenSelect ν)

/-- The columns of a table as they are written once they were read. -/
def columnsOf (table : String) : List TableColumn :=
  (listed (δ table) (addNew [] (x.chosen table))).map (⟨table, ·⟩)

/-- What the select is written as once it was read, where `δ` are the columns that the tables
declare. -/
def normal : WrittenSelect ν :=
  { x with
    results := sorted (x.tables.flatMap (x.columnsOf δ)) (x.results.filterMap (·.call?))
      (x.results.filterMap (·.scalar?))
    conditions := closed (x.conditions.map fun c => (c.1.reread, c.2))
    havings := closed (x.havings.map fun h => (h.1.reread, h.2)) }

/-- The names under which a query around the select can use its results. -/
def outputs : List String := addNew [] (x.results.filterMap (·.name?))

variable {δ x}

theorem filter_flatMap {α β : Type} [DecidableEq α] {l : List α} (hl : l.Nodup) {f : α → List β}
    {key : β → α} (hf : ∀ a, ∀ b ∈ f a, key b = a) {a : α} (ha : a ∈ l) :
    (l.flatMap f).filter (key · = a) = f a := by
  have hsame : ∀ a, (f a).filter (key · = a) = f a :=
    fun a => List.filter_eq_self.2 fun b hb => by simpa using hf a b hb
  have hother : ∀ {a' a}, a' ≠ a → (f a').filter (key · = a) = [] := fun hne =>
    List.filter_eq_nil_iff.2 fun b hb => by simpa [hf _ b hb] using hne
  induction l with
  | nil => cases ha
  | cons a' l ih =>
    obtain ⟨hnew, hl⟩ := List.nodup_cons.1 hl
    rw [List.flatMap_cons, List.filter_append]
    rcases List.mem_cons.1 ha with rfl | ha
    · rw [hsame, List.filter_eq_nil_iff.2, List.append_nil]
      intro b hb
      obtain ⟨c, hc, hb⟩ := List.mem_flatMap.1 hb
      have hne : c ≠ a := fun h => hnew (h ▸ hc)
      simpa [hf c b hb] using hne
    · have hne : a' ≠ a := fun h => hnew (h ▸ ha)
      rw [hother hne, List.nil_append, ih hl ha]

theorem chosen_normal (hnames : x.tables.Nodup) {table : String} (htable : table ∈ x.tables) :
    (x.normal δ).chosen table = listed (δ table) (addNew [] (x.chosen table)) := by
  have hkey : ∀ t, ∀ c ∈ x.columnsOf δ t, c.table = t := by
    intro t c hc
    obtain ⟨column, -, rfl⟩ := List.mem_map.1 hc
    rfl
  rw [chosen, normal]
  simp only [filterMap_column_sorted]
  rw [filter_flatMap hnames hkey htable, columnsOf, List.map_map]
  exact List.map_id'' (fun _ => rfl) _

/-- **The normal form of a normal form is the same.** -/
theorem normal_normal (hnames : x.tables.Nodup) (hδ : ∀ table, (δ table).Nodup) :
    (x.normal δ).normal δ = x.normal δ := by
  have hcolumns : (x.normal δ).tables.flatMap ((x.normal δ).columnsOf δ) =
      x.tables.flatMap (x.columnsOf δ) := by
    refine List.flatMap_congr fun table htable => ?_
    rw [columnsOf, chosen_normal hnames htable,
      listed_addNew (hδ table) (nodup_addNew List.nodup_nil _)]
    rfl
  have hcalls : (x.normal δ).results.filterMap (·.call?) = x.results.filterMap (·.call?) :=
    filterMap_call_sorted _ _ _
  have hscalars : (x.normal δ).results.filterMap (·.scalar?) = x.results.filterMap (·.scalar?) :=
    filterMap_scalar_sorted _ _ _
  have hclosed : ∀ {α : Type} {f : α → α} (_ : ∀ a, f (f a) = f a) (l : List (α × Connector)),
      closed ((closed (l.map fun c => (f c.1, c.2))).map fun c => (f c.1, c.2)) =
        closed (l.map fun c => (f c.1, c.2)) := by
    intro α f hf l
    rw [map_closed, closed_closed, List.map_map]
    simp only [Function.comp_def, hf]
  rw [normal, hcolumns, hcalls, hscalars]
  have hconditions := hclosed (f := WrittenCondition.reread)
    (fun c => by simp [WrittenCondition.reread]) x.conditions
  have hhavings := hclosed (f := WrittenHaving.reread) (fun h => rfl) x.havings
  simp only [normal, hconditions, hhavings]

/-! ### What stays of a select in its normal form -/

/-- No result is new. -/
theorem mem_results_of_normal {r : WrittenResult ν} (hr : r ∈ (x.normal δ).results) :
    r ∈ x.results := by
  rcases List.mem_append.1 hr with hr | hr
  · rcases List.mem_append.1 hr with hr | hr
    · obtain ⟨c, hc, rfl⟩ := List.mem_map.1 hr
      obtain ⟨table, -, hc⟩ := List.mem_flatMap.1 hc
      obtain ⟨column, hcolumn, rfl⟩ := List.mem_map.1 hc
      have hchosen : column ∈ x.chosen table := by
        simpa using (mem_addNew _ _).1 (mem_listed.1 hcolumn)
      obtain ⟨c, hmem, rfl⟩ := List.mem_map.1 hchosen
      obtain ⟨hmem, htable⟩ := List.mem_filter.1 hmem
      obtain ⟨r, hin, heq⟩ := List.mem_filterMap.1 hmem
      cases r with
      | column c' =>
        obtain rfl := Option.some.inj heq
        obtain rfl := of_decide_eq_true htable
        exact hin
      | _ => cases heq
    · obtain ⟨a, ha, rfl⟩ := List.mem_map.1 hr
      obtain ⟨r, hin, heq⟩ := List.mem_filterMap.1 ha
      cases r with
      | call a' => exact Option.some.inj heq ▸ hin
      | _ => cases heq
  · obtain ⟨d, hd, rfl⟩ := List.mem_map.1 hr
    obtain ⟨r, hin, heq⟩ := List.mem_filterMap.1 hd
    cases r with
    | scalar q aliasName => exact Option.some.inj heq ▸ hin
    | _ => cases heq

theorem mem_conditions_of_normal {c : WrittenCondition ν × Connector}
    (hc : c ∈ (x.normal δ).conditions) : ∃ c' ∈ x.conditions, c.1 = c'.1.reread := by
  obtain ⟨y, hy, heq⟩ := mem_closed hc
  obtain ⟨c', hc', rfl⟩ := List.mem_map.1 hy
  exact ⟨c', hc', heq.symm⟩

theorem mem_havings_of_normal {h : WrittenHaving × Connector} (hh : h ∈ (x.normal δ).havings) :
    ∃ h' ∈ x.havings, h.1 = h'.1.reread := by
  obtain ⟨y, hy, heq⟩ := mem_closed hh
  obtain ⟨h', hh', rfl⟩ := List.mem_map.1 hy
  exact ⟨h', hh', heq.symm⟩

theorem Plain.normal (h : x.Plain) : (x.normal δ).Plain := by
  refine ⟨fun r hr => h.results r (mem_results_of_normal hr), h.items, h.derived, fun c hc => ?_,
    h.groups, fun k hk => ?_, h.terms, h.limit, h.source⟩
  · obtain ⟨c', hc', heq⟩ := mem_conditions_of_normal hc
    rw [heq]
    exact h.conditions c' hc'
  · obtain ⟨k', hk', heq⟩ := mem_havings_of_normal hk
    rw [heq]
    exact h.havings k' hk'

theorem Arranged.normal (h : x.Arranged) : (x.normal δ).Arranged :=
  ⟨h.names, h.tied, h.grouped, fun r hr => h.columns r (mem_results_of_normal hr)⟩

theorem mem_nested_of_normal {q : ν} (hq : q ∈ (x.normal δ).nested) : q ∈ x.nested := by
  rcases mem_nested.1 hq with hd | ⟨r, hr, hd⟩ | ⟨c, hc, hq⟩
  · exact mem_nested.2 (.inl hd)
  · exact mem_nested.2 (.inr (.inl ⟨r, mem_results_of_normal hr, hd⟩))
  · obtain ⟨c', hc', heq⟩ := mem_conditions_of_normal hc
    rw [heq, WrittenCondition.reread, WrittenTest.nested_reread] at hq
    exact mem_nested.2 (.inr (.inr ⟨c', hc', hq⟩))

end WrittenSelect

/-! ## Levels of the grammar -/

theorem deepest_le_iff {l : List Nat} {n : Nat} : deepest l ≤ n ↔ ∀ a ∈ l, a ≤ n := by
  induction l with
  | nil => simp [deepest]
  | cons a l ih =>
    rw [List.forall_mem_cons, ← ih]
    exact Nat.max_le

theorem le_deepest {l : List Nat} {a : Nat} (h : a ∈ l) : a ≤ deepest l :=
  deepest_le_iff.1 (Nat.le_refl _) a h

theorem tailLevels_closed (l : List (Nat × Connector)) :
    ∀ base k, tailLevels base k (closed l) = tailLevels base k l := by
  induction l with
  | nil => exact fun _ _ => rfl
  | cons x l ih =>
    intro base k
    obtain ⟨levels, k'⟩ := x
    rw [closed_cons]
    cases l with
    | nil => cases k <;> rfl
    | cons y l => cases k <;> simp only [tailLevels, ih] <;> rfl

/-- What ties the last member needs no levels. -/
theorem chainLevels_closed (l : List (Nat × Connector)) :
    chainLevels (closed l) = chainLevels l := by
  cases l with
  | nil => rfl
  | cons x l =>
    obtain ⟨levels, k⟩ := x
    rw [closed_cons, chainLevels, tailLevels_closed]
    cases l <;> cases k <;> rfl

theorem tailLevels_mono {l l' : List (Nat × Connector)}
    (h : List.Forall₂ (fun a b => a.1 ≤ b.1 ∧ a.2 = b.2) l l') :
    ∀ base k, tailLevels base k l ≤ tailLevels base k l' := by
  induction h with
  | nil => exact fun _ _ => Nat.le_refl _
  | @cons a b l l' hhead htail ih =>
    intro base k
    obtain ⟨levels, k'⟩ := a
    obtain ⟨levels', k''⟩ := b
    obtain ⟨hlevels, rfl⟩ := hhead
    cases k with
    | and =>
      exact max_le_max (Nat.add_le_add_right (Nat.add_le_add_right hlevels 1) base) (ih base k')
    | or => exact max_le_max (Nat.add_le_add_right hlevels 1) (ih 1 k')

theorem chainLevels_mono {l l' : List (Nat × Connector)}
    (h : List.Forall₂ (fun a b => a.1 ≤ b.1 ∧ a.2 = b.2) l l') :
    chainLevels l ≤ chainLevels l' := by
  cases h with
  | nil => exact Nat.le_refl _
  | @cons a b l l' hhead htail =>
    obtain ⟨levels, k⟩ := a
    obtain ⟨levels', k'⟩ := b
    obtain ⟨hlevels, rfl⟩ := hhead
    exact max_le_max hlevels (tailLevels_mono htail 0 k)

/-! ### Levels of selects -/

variable {p p' : ν → Part Query}

theorem WrittenTest.levels_le {t : WrittenTest ν} (s : Part Expr)
    (h : ∀ q ∈ t.nested, (p' q).levels ≤ (p q).levels) :
    (t.part p' s).levels ≤ (t.part p s).levels := by
  cases t with
  | compareQuery op q =>
    have hq := h q (by simp [nested])
    simp only [part, comparePart, subqueryPart]
    omega
  | amongResults negated q =>
    have hq := h q (by simp [nested])
    simp only [part, inQueryPart]
    omega
  | _ => exact Nat.le_refl _

theorem WrittenResult.levels_le {r : WrittenResult ν}
    (h : ∀ d ∈ r.scalar?, (p' d.1).levels ≤ (p d.1).levels) :
    (r.part p').levels ≤ (r.part p).levels := by
  cases r with
  | scalar q aliasName => exact Nat.add_le_add_right (Nat.add_le_add_right (h _ rfl) 1) 1
  | _ => exact Nat.le_refl _

/-- A clause of conditions that are closed, each of which needs no more levels. -/
theorem levels_conditionsPart {α : Type} (k : String) {l : List (α × Connector)}
    {f f' : α → Part Expr} (h : ∀ c ∈ l, (f' c.1).levels ≤ (f c.1).levels) :
    (conditionsPart k ((closed l).map fun c => (f' c.1, c.2))).levels ≤
      (conditionsPart k (l.map fun c => (f c.1, c.2))).levels := by
  have hlevels : chainLevels (memberLevels ((closed l).map fun c => (f' c.1, c.2))) ≤
      chainLevels (memberLevels (l.map fun c => (f c.1, c.2))) := by
    rw [map_closed, memberLevels, map_closed, chainLevels_closed]
    refine chainLevels_mono ?_
    rw [memberLevels, List.map_map, List.map_map, List.forall₂_map_left_iff,
      List.forall₂_map_right_iff, List.forall₂_same]
    exact fun c hc => ⟨h c hc, rfl⟩
  cases l with
  | nil => exact Nat.le_refl _
  | cons c l =>
    obtain ⟨a, k'⟩ := c
    rw [closed_cons] at hlevels ⊢
    exact Nat.add_le_add_right hlevels 1

namespace WrittenSelect

variable {δ : String → List String} {x : WrittenSelect ν}

theorem levels_items (h : ∀ q ∈ x.nested, (p' q).levels ≤ (p q).levels) :
    deepest (((x.normal δ).parts p').items.map (·.levels)) ≤
      deepest ((x.parts p).items.map (·.levels)) := by
  rw [deepest_le_iff]
  intro levels hlevels
  obtain ⟨part, hpart, rfl⟩ := List.mem_map.1 hlevels
  unfold parts at hpart
  split at hpart
  · rw [List.mem_singleton.1 hpart]
    exact Nat.zero_le _
  · obtain ⟨r, hr, rfl⟩ := List.mem_map.1 hpart
    have hmem := mem_results_of_normal hr
    have hin : (r.part p).levels ∈ (x.parts p).items.map (·.levels) := by
      rw [parts, if_neg (by simpa using List.ne_nil_of_mem hmem), List.map_map]
      exact List.mem_map_of_mem (f := fun r => (WrittenResult.part p r).levels) hmem
    refine Nat.le_trans (WrittenResult.levels_le fun d hd => ?_) (le_deepest hin)
    exact h d.1 (mem_nested.2 (.inr (.inl ⟨r, hmem, d, hd, rfl⟩)))

theorem levels_sources (h : ∀ q ∈ x.nested, (p' q).levels ≤ (p q).levels) :
    (fromClausePart ((x.normal δ).parts p').sources).levels ≤
      (fromClausePart (x.parts p).sources).levels := by
  have hclause : ∀ l : List (Part FromPart),
      (fromClausePart l).levels = deepest (l.map (·.levels)) := by
    intro l
    cases l <;> rfl
  rw [hclause, hclause, deepest_le_iff]
  intro levels hlevels
  obtain ⟨part, hpart, rfl⟩ := List.mem_map.1 hlevels
  rcases List.mem_append.1 hpart with hpart | hpart
  · exact le_deepest (List.mem_map_of_mem (List.mem_append_left _ hpart))
  · obtain ⟨d, hd, rfl⟩ := List.mem_map.1 hpart
    have hin : derivedItem (p d.1) d.2 ∈ (x.parts p).sources :=
      List.mem_append_right _ (List.mem_map_of_mem (f := fun d => derivedItem (p d.1) d.2) hd)
    refine Nat.le_trans ?_ (le_deepest (List.mem_map_of_mem hin))
    exact Nat.add_le_add_right (h d.1 (mem_nested.2 (.inl ⟨d, hd, rfl⟩))) 1

theorem levels_conditions (h : ∀ q ∈ x.nested, (p' q).levels ≤ (p q).levels) :
    (conditionsPart "WHERE" ((x.normal δ).parts p').conditions).levels ≤
      (conditionsPart "WHERE" (x.parts p).conditions).levels := by
  have hparts : ∀ c : WrittenCondition ν, c.reread.part p' = c.part p' :=
    fun c => WrittenTest.part_reread p' _ c.test
  have hconditions : ((x.normal δ).parts p').conditions =
      (closed x.conditions).map fun c => (c.1.part p', c.2) := by
    simp only [parts, normal]
    rw [map_closed, map_closed, List.map_map]
    simp only [Function.comp_def, hparts]
  rw [hconditions]
  exact levels_conditionsPart "WHERE" fun c hc => WrittenTest.levels_le _ fun q hq =>
    h q (mem_nested.2 (.inr (.inr ⟨c, hc, hq⟩)))

theorem levels_havings : (conditionsPart "HAVING" ((x.normal δ).parts p').havings).levels ≤
    (conditionsPart "HAVING" (x.parts p).havings).levels := by
  have hhavings : ((x.normal δ).parts p').havings =
      (closed x.havings).map fun k => (k.1.part, k.2) := by
    simp only [parts, normal]
    rw [map_closed, map_closed, List.map_map]
    rfl
  rw [hhavings]
  exact levels_conditionsPart "HAVING" fun _ _ => Nat.le_refl _

/-- **In normal form a select needs no more levels of the grammar.** -/
theorem levels_normal (h : ∀ q ∈ x.nested, (p' q).levels ≤ (p q).levels) :
    ((x.normal δ).parts p').query.levels ≤ (x.parts p).query.levels := by
  have hitems := levels_items (δ := δ) h
  have hsources := levels_sources (δ := δ) h
  have hconditions := levels_conditions (δ := δ) h
  have hhavings : (conditionsPart "HAVING" ((x.normal δ).parts p').havings).levels ≤
      (conditionsPart "HAVING" (x.parts p).havings).levels := levels_havings
  have hgroups : ((x.normal δ).parts p').groups = (x.parts p).groups := rfl
  have hterms : ((x.normal δ).parts p').terms = (x.parts p).terms := rfl
  have hlimit : ((x.normal δ).parts p').limit = (x.parts p).limit := rfl
  simp only [SelectParts.query, SelectParts.body, hgroups, hterms, hlimit]
  gcongr

end WrittenSelect

end QueryCanvas.Sql
