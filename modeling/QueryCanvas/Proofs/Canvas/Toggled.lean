import Mathlib.Data.Finset.Dedup
import Mathlib.Data.List.Dedup
import QueryCanvas.Proofs.Canvas.Ordered

/-!
# Columns toggled in any order

A toggle chooses a column or withdraws it, and after several toggles a column is chosen exactly if
it was chosen before and toggled an even number of times, or was not and toggled an odd number of
times.  Two sequences of toggles that agree in these parities choose the same columns, in other
orders.  If the columns are declared and have no aggregates around them, nothing that is written
tells the two results apart.
-/

set_option autoImplicit false

namespace QueryCanvas

/-! ## Changes by keys -/

section Keyed

variable {α β γ κ : Type} [DecidableEq κ] (key : α → κ) (of : β → κ) (change : β → α → α)

/-- Changes of the first members of their keys: those that have the key of the head of a list are
made in it, and all others in its rest. -/
theorem foldl_updateFirst_cons (hkey : ∀ x a, key (change x a) = key a) (xs : List β) (a : α)
    (rest : List α) :
    xs.foldl (fun l x => updateFirst (key · = of x) (change x) l) (a :: rest) =
      (xs.filter (of · = key a)).foldl (fun a x => change x a) a ::
        (xs.filter (of · ≠ key a)).foldl (fun l x => updateFirst (key · = of x) (change x) l)
          rest := by
  induction xs generalizing a rest with
  | nil => rfl
  | cons x xs ih =>
    rw [List.foldl_cons, updateFirst]
    by_cases h : key a = of x
    · rw [if_pos (by simpa using h), ih, hkey, List.filter_cons_of_pos (by simpa using h.symm),
        List.filter_cons_of_neg (by simpa using h.symm)]
      rfl
    · rw [if_neg (by simpa using h), ih, List.filter_cons_of_neg (by simpa using Ne.symm h),
        List.filter_cons_of_pos (by simpa using Ne.symm h)]
      rfl

/-- Two sequences of changes are not told apart in a list if they are not in any member that is the
first one of its key. -/
theorem map_foldl_updateFirst_congr (hkey : ∀ x a, key (change x a) = key a) {view : α → γ}
    {xs ys : List β} {l : List α}
    (h : ∀ a, l.find? (key · = key a) = some a →
      view ((xs.filter (of · = key a)).foldl (fun a x => change x a) a) =
        view ((ys.filter (of · = key a)).foldl (fun a x => change x a) a)) :
    (xs.foldl (fun l x => updateFirst (key · = of x) (change x) l) l).map view =
      (ys.foldl (fun l x => updateFirst (key · = of x) (change x) l) l).map view := by
  induction l generalizing xs ys with
  | nil =>
    have hnil : ∀ zs : List β,
        zs.foldl (fun l x => updateFirst (key · = of x) (change x) l) [] = [] :=
      fun zs => List.foldlRecOn (motive := (· = [])) zs _ rfl fun _ hl _ _ => by rw [hl]; rfl
    rw [hnil, hnil]
  | cons a rest ih =>
    rw [foldl_updateFirst_cons key of change hkey, foldl_updateFirst_cons key of change hkey,
      List.map_cons, List.map_cons, h a (by simp)]
    refine congrArg _ (ih fun b hb => ?_)
    rw [List.filter_filter, List.filter_filter]
    by_cases hab : key b = key a
    · -- The changes of this key were all made in the head.
      have hnone : ∀ zs : List β,
          (zs.filter fun x => decide (of x = key b) && decide (of x ≠ key a)) = [] := fun zs =>
        List.filter_eq_nil_iff.2 fun x _ => by simp [hab]
      rw [hnone, hnone]
    · have hsame : ∀ zs : List β,
          (zs.filter fun x => decide (of x = key b) && decide (of x ≠ key a)) =
            zs.filter (of · = key b) := fun zs =>
        List.filter_congr fun x _ => by by_cases hx : of x = key b <;> simp [hx, hab]
      rw [hsame, hsame]
      refine h b ?_
      rw [List.find?_cons_of_neg (by simpa using Ne.symm hab), hb]

/-- What is found under a key after the changes has undergone those of that key. -/
theorem find?_foldl_updateFirst (hkey : ∀ x a, key (change x a) = key a) (k : κ) (xs : List β)
    (l : List α) :
    (xs.foldl (fun l x => updateFirst (key · = of x) (change x) l) l).find? (key · = k) =
      (l.find? (key · = k)).map fun a =>
        (xs.filter (of · = k)).foldl (fun a x => change x a) a := by
  induction xs generalizing l with
  | nil => exact Option.map_id'.symm
  | cons x xs ih =>
    rw [List.foldl_cons, ih]
    by_cases h : of x = k
    · rw [List.filter_cons_of_pos (by simpa using h), h,
        find?_updateFirst fun a ha => by simpa [hkey] using ha, Option.map_map]
      rfl
    · rw [List.filter_cons_of_neg (by simpa using h)]
      refine congrArg _ (Canvas.find?_updateFirst_of_ne (fun a ha => ?_) l)
      have hne : key a ≠ k := by
        rw [of_decide_eq_true ha]
        exact h
      simpa [hkey] using hne

end Keyed

/-- A name that has no entry has none to lose. -/
theorem NameMap.erase_eq_self {α : Type} {m : NameMap α} {name : String}
    (h : m.find? name = none) : m.erase name = m := by
  have hnone := List.find?_eq_none.1 (Option.map_eq_none_iff.1 h)
  have hentries : m.entries.filter (fun entry => entry.1 ≠ name) = m.entries :=
    List.filter_eq_self.2 fun e he => by simpa using hnone e he
  obtain ⟨entries, sorted⟩ := m
  simp only [erase, hentries]

namespace Table

variable {t : Table} {column : String} {columns columns' : List String}

/-! ## Toggling columns of one table -/

/-- A toggle changes whether its column is chosen, and nothing for any other column. -/
theorem isSelected_toggle (t : Table) (column other : String) :
    (t.toggle column).isSelected other = (t.isSelected other ^^ decide (column = other)) := by
  rw [toggle]
  by_cases hcolumn : t.isSelected column
  · rw [if_pos hcolumn]
    by_cases hother : column = other
    · subst hother
      simpa [deselect, isSelected] using hcolumn
    · simp [hother, Ne.symm hother, deselect, isSelected]
  · rw [if_neg hcolumn, select, if_neg hcolumn]
    by_cases hother : column = other
    · subst hother
      simpa [isSelected] using hcolumn
    · simp [hother, Ne.symm hother, isSelected]

theorem toggle_id (t : Table) (column : String) : (t.toggle column).id = t.id := by
  rw [toggle]
  split
  · rfl
  · rw [select]
    split <;> rfl

/-- The table after columns are toggled one after the other. -/
def toggled (t : Table) (columns : List String) : Table := columns.foldl toggle t

/-- The columns that are toggled an odd number of times change whether they are chosen. -/
theorem isSelected_toggled (t : Table) (columns : List String) (other : String) :
    (t.toggled columns).isSelected other =
      (t.isSelected other ^^ decide (columns.count other % 2 = 1)) := by
  induction columns generalizing t with
  | nil => simp [toggled]
  | cons column rest ih =>
    have hrest := ih (t.toggle column)
    rw [isSelected_toggle] at hrest
    rw [toggled, List.foldl_cons, ← toggled, hrest, List.count_cons]
    by_cases hother : column = other
    · have hflip : decide ((rest.count other + 1) % 2 = 1) =
          !decide (rest.count other % 2 = 1) := by
        rw [Bool.eq_not_iff, ne_eq, decide_eq_decide]
        omega
      simp [hother, hflip]
    · simp [hother]

/-- The column is declared, and no aggregate is around it. -/
structure IsPlain (t : Table) (column : String) : Prop where
  declared : column ∈ t.columns
  plain : t.aggregates.find? column = none

instance (t : Table) (column : String) : Decidable (t.IsPlain column) :=
  decidable_of_iff (column ∈ t.columns ∧ t.aggregates.find? column = none)
    ⟨fun h => ⟨h.1, h.2⟩, fun h => ⟨h.declared, h.plain⟩⟩

/-- The chosen columns that are not declared, in the order in which they were chosen. -/
def undeclared (t : Table) : List String := t.selected.filter (!t.columns.contains ·)

/-- Plain columns are chosen and withdrawn, and nothing else is changed. -/
theorem toggle_of_isPlain (h : t.IsPlain column) :
    ∃ selected, t.toggle column = { t with selected } ∧
      ({ t with selected } : Table).undeclared = t.undeclared := by
  rw [toggle]
  split
  · refine ⟨t.selected.filter (· ≠ column), ?_, ?_⟩
    · rw [deselect, NameMap.erase_eq_self h.plain]
    · rw [undeclared, undeclared, List.filter_filter]
      refine List.filter_congr fun other _ => ?_
      by_cases hother : other = column
      · simp [hother, h.declared]
      · simp [hother]
  · rename_i hcolumn
    refine ⟨t.selected ++ [column], ?_, ?_⟩
    · rw [select, if_neg hcolumn]
    · simp [undeclared, h.declared]

theorem toggled_of_isPlain (h : ∀ column ∈ columns, t.IsPlain column) :
    ∃ selected, t.toggled columns = { t with selected } ∧
      ({ t with selected } : Table).undeclared = t.undeclared := by
  induction columns generalizing t with
  | nil => exact ⟨t.selected, rfl, rfl⟩
  | cons column rest ih =>
    obtain ⟨hcolumn, hrest⟩ := List.forall_mem_cons.1 h
    obtain ⟨selected, htoggle, hundeclared⟩ := toggle_of_isPlain hcolumn
    have hplain : ∀ c ∈ rest, ({ t with selected } : Table).IsPlain c :=
      fun c hc => ⟨(hrest c hc).declared, (hrest c hc).plain⟩
    obtain ⟨selected', htoggled, hundeclared'⟩ := ih hplain
    refine ⟨selected', ?_, hundeclared'.trans hundeclared⟩
    rw [toggled, List.foldl_cons, htoggle]
    exact htoggled

/-- Toggles of plain columns leave the same listing behind if each column is toggled equally often
up to pairs. -/
theorem ordered_toggled (h : ∀ column ∈ columns, t.IsPlain column)
    (h' : ∀ column ∈ columns', t.IsPlain column)
    (hparity : ∀ column, columns.count column % 2 = columns'.count column % 2) :
    (t.toggled columns).ordered = (t.toggled columns').ordered := by
  have hchosen : (t.toggled columns).isSelected = (t.toggled columns').isSelected := by
    funext column
    rw [isSelected_toggled, isSelected_toggled, hparity]
  obtain ⟨selected, htoggled, hundeclared⟩ := toggled_of_isPlain h
  obtain ⟨selected', htoggled', hundeclared'⟩ := toggled_of_isPlain h'
  rw [htoggled, htoggled'] at hchosen ⊢
  -- A listing asks which columns are chosen and, of the undeclared ones only, in which order.
  have hlisted : ({ t with selected } : Table).orderedSelection =
      ({ t with selected := selected' } : Table).orderedSelection := by
    rw [orderedSelection, hchosen]
    exact congrArg _ (hundeclared.trans hundeclared'.symm)
  rw [ordered, hlisted]
  rfl

end Table

/-! ## Toggles on a canvas -/

/-- A toggle of one column, with the block and the table that it stands in. -/
structure ColumnToggle where
  focus : Focus
  table : EntityId
  column : String
deriving DecidableEq, Repr

namespace ColumnToggle

/-- The toggle as an edit of the canvas. -/
def edit (x : ColumnToggle) : CanvasEdit := .inBlock x.focus (.toggleColumn x.table x.column)

/-- What the toggle does to the tables of its block. -/
def inTables (x : ColumnToggle) (tables : List Table) : List Table :=
  updateFirst (·.id = x.table) (·.toggle x.column) tables

def inSheet (x : ColumnToggle) : Sheet → Sheet := Prod.map (fun f => f) x.inTables

/-- The columns that are toggled in one table of one block. -/
def columnsOn (focus : Focus) (table : EntityId) (xs : List ColumnToggle) : List String :=
  ((xs.filter (·.focus = focus)).filter (·.table = table)).map (·.column)

/-- Each column of each table is toggled equally often in both sequences, up to pairs. -/
def SameParity (xs ys : List ColumnToggle) : Prop := ∀ x, xs.count x % 2 = ys.count x % 2

variable {focus : Focus} {table : EntityId} {column : String} {xs ys : List ColumnToggle}

theorem mem_columnsOn : column ∈ columnsOn focus table xs ↔ ⟨focus, table, column⟩ ∈ xs := by
  simp only [columnsOn, List.mem_map, List.mem_filter, decide_eq_true_eq]
  constructor
  · rintro ⟨x, ⟨⟨hx, rfl⟩, rfl⟩, rfl⟩
    exact hx
  · intro hx
    exact ⟨_, ⟨⟨hx, rfl⟩, rfl⟩, rfl⟩

theorem count_columnsOn (focus : Focus) (table : EntityId) (column : String)
    (xs : List ColumnToggle) :
    (columnsOn focus table xs).count column = xs.count ⟨focus, table, column⟩ := by
  rw [columnsOn, List.filter_filter, List.count, List.countP_map, List.countP_filter, List.count]
  refine List.countP_congr fun x _ => ?_
  obtain ⟨f, t, c⟩ := x
  simp only [Function.comp_apply, beq_iff_eq, Bool.and_eq_true, decide_eq_true_eq, mk.injEq]
  tauto

/-- Only the toggles that occur have to be counted. -/
theorem sameParity_iff :
    SameParity xs ys ↔ ∀ x ∈ xs ++ ys, xs.count x % 2 = ys.count x % 2 := by
  refine ⟨fun h x _ => h x, fun h x => ?_⟩
  by_cases hx : x ∈ xs ++ ys
  · exact h x hx
  · rw [List.mem_append, not_or] at hx
    rw [List.count_eq_zero_of_not_mem hx.1, List.count_eq_zero_of_not_mem hx.2]

instance : Decidable (SameParity xs ys) := decidable_of_iff _ sameParity_iff.symm

end ColumnToggle

namespace Canvas

variable {c : Canvas} {focus : Focus} {table : EntityId} {xs ys : List ColumnToggle}

/-- A table in the block that a pointer leads to. -/
def table? (c : Canvas) (focus : Focus) (table : EntityId) : Option Table :=
  (c.block? focus).bind (·.table? table)

/-- The canvas after toggles one after the other.  A toggle needs no new identifier. -/
def toggled (c : Canvas) (xs : List ColumnToggle) : Canvas :=
  xs.foldl (fun c x => x.edit.apply default c) c

/-- A toggle of a declared column without an aggregate around it, or of nothing. -/
def IsPlain (c : Canvas) (x : ColumnToggle) : Prop :=
  ∀ t ∈ c.table? x.focus x.table, t.IsPlain x.column

instance (c : Canvas) (x : ColumnToggle) : Decidable (c.IsPlain x) :=
  inferInstanceAs (Decidable (∀ t ∈ c.table? x.focus x.table, t.IsPlain x.column))

/-- The identifiers of the tables and the sets of their chosen columns, block by block. -/
def choices (c : Canvas) : List (List (EntityId × Finset String)) :=
  c.blocks.map fun b => b.tables.map fun t => (t.id, t.selected.toFinset)

theorem table?_eq (c : Canvas) (focus : Focus) (table : EntityId) :
    c.table? focus table =
      ((c.sheets.find? (·.1 = focus)).map (·.2)).bind fun l => l.find? (·.id = table) := by
  rw [← tables_block?, Option.bind_map]
  rfl

theorem bare_toggled (c : Canvas) (xs : List ColumnToggle) : (c.toggled xs).bare = c.bare :=
  List.foldlRecOn (motive := fun d => bare d = c.bare) xs _ rfl fun d hd x _ =>
    (bare_updateBlock d x.focus x.inTables).trans hd

theorem sheets_toggled (c : Canvas) (xs : List ColumnToggle) :
    (c.toggled xs).sheets =
      xs.foldl (fun l x => updateFirst (·.1 = x.focus) x.inSheet l)
        c.sheets :=
  (List.foldl_hom sheets fun d x => (sheets_updateBlock d x.focus x.inTables).symm).symm

/-- Toggles change the tables of a sheet and leave its pointer alone. -/
theorem foldl_sheet (xs : List ColumnToggle) (s : Sheet) :
    xs.foldl (fun s x => x.inSheet s) s =
      (s.1, xs.foldl (fun l x => x.inTables l) s.2) := by
  induction xs generalizing s with
  | nil => rfl
  | cons x rest ih => exact ih _

/-- A table has undergone the toggles of its columns, in their order. -/
theorem table?_toggled (c : Canvas) (focus : Focus) (table : EntityId) (xs : List ColumnToggle) :
    (c.toggled xs).table? focus table =
      (c.table? focus table).map (·.toggled (ColumnToggle.columnsOn focus table xs)) := by
  rw [table?_eq, table?_eq, sheets_toggled,
    find?_foldl_updateFirst Prod.fst ColumnToggle.focus ColumnToggle.inSheet fun _ _ => rfl]
  cases c.sheets.find? (·.1 = focus) with
  | none => rfl
  | some s =>
    simp only [Option.map_some, Option.bind_some, foldl_sheet]
    have hfind := find?_foldl_updateFirst Table.id ColumnToggle.table
      (fun x t => t.toggle x.column) (fun x t => t.toggle_id x.column) table
      (xs.filter (·.focus = focus)) s.2
    refine hfind.trans ?_
    simp only [Table.toggled, ColumnToggle.columnsOn, List.foldl_map]

/-- Toggles of plain columns leave the same canvas behind, up to the order of choice, if each column
is toggled equally often up to pairs. -/
theorem ordered_toggled (hxs : ∀ x ∈ xs, c.IsPlain x) (hys : ∀ y ∈ ys, c.IsPlain y)
    (hparity : ColumnToggle.SameParity xs ys) :
    (c.toggled xs).ordered = (c.toggled ys).ordered := by
  refine eq_of_bare_of_sheets ?_ ?_
  · rw [ordered, ordered, bare_mapBlocks, bare_mapBlocks, bare_toggled, bare_toggled]
  · rw [ordered, ordered, sheets_mapBlocks, sheets_mapBlocks, sheets_toggled, sheets_toggled]
    refine map_foldl_updateFirst_congr Prod.fst ColumnToggle.focus ColumnToggle.inSheet
      (fun _ _ => rfl) fun s hs => ?_
    rw [foldl_sheet, foldl_sheet]
    refine congrArg (Prod.mk s.1) ?_
    refine map_foldl_updateFirst_congr Table.id ColumnToggle.table
      (fun x t => t.toggle x.column) (fun x t => t.toggle_id x.column) fun t ht => ?_
    have htable : c.table? s.1 t.id = some t := by
      rw [table?_eq, hs]
      exact ht
    have hplain : ∀ {zs : List ColumnToggle}, (∀ x ∈ zs, c.IsPlain x) →
        ∀ column ∈ ColumnToggle.columnsOn s.1 t.id zs, t.IsPlain column :=
      fun hzs column hcolumn => hzs _ (ColumnToggle.mem_columnsOn.1 hcolumn) t htable
    have hsame := Table.ordered_toggled (hplain hxs) (hplain hys) fun column => by
      rw [ColumnToggle.count_columnsOn, ColumnToggle.count_columnsOn, hparity]
    simpa only [Table.toggled, ColumnToggle.columnsOn, List.foldl_map] using hsame

theorem choices_eq (c : Canvas) :
    c.choices = c.sheets.map fun s => s.2.map fun t => (t.id, t.selected.toFinset) := by
  have hblocks : c.choices = (c.blocks.map (·.tables)).map
      (List.map fun t => (t.id, t.selected.toFinset)) := by
    rw [choices, List.map_map]
    rfl
  rw [hblocks, ← sheets_map_snd, List.map_map]
  rfl

/-- The sets of chosen columns do not depend on the order of choice. -/
theorem choices_ordered (c : Canvas) : c.ordered.choices = c.choices := by
  have htable : ∀ t : Table, t.ordered.selected.toFinset = t.selected.toFinset := fun t => by
    ext column
    rw [List.mem_toFinset, List.mem_toFinset]
    exact Table.mem_orderedSelection
  rw [choices_eq, choices_eq, ordered, sheets_mapBlocks, List.map_map]
  simp only [Function.comp_def, Prod.map_snd, List.map_map, Table.ordered_id, htable]

/-- The order of choice is not seen.  Two sequences of toggles of plain columns in which each column
is toggled equally often, up to pairs, lead to the same query text in every layout, to the same
shape and to the same sets of chosen columns.  A column is chosen afterwards if it was chosen before
or was toggled an odd number of times, and not both. -/
theorem order_of_choice_unseen (hxs : ∀ x ∈ xs, c.IsPlain x) (hys : ∀ y ∈ ys, c.IsPlain y)
    (hparity : ColumnToggle.SameParity xs ys) :
    (∀ l, Sql.render l (c.toggled xs) = Sql.render l (c.toggled ys)) ∧
      (c.toggled xs).shape = (c.toggled ys).shape ∧
      (c.toggled xs).choices = (c.toggled ys).choices ∧
      ∀ focus table column, ((c.toggled xs).table? focus table).map (·.isSelected column) =
        (c.table? focus table).map fun t =>
          t.isSelected column ^^ decide (xs.count ⟨focus, table, column⟩ % 2 = 1) := by
  have hsame := ordered_toggled hxs hys hparity
  refine ⟨fun l => ?_, ?_, ?_, fun focus table column => ?_⟩
  · rw [← render_ordered, hsame, render_ordered]
  · rw [← shape_ordered, hsame, shape_ordered]
  · rw [← choices_ordered, hsame, choices_ordered]
  · simp only [table?_toggled, Option.map_map, Function.comp_def, Table.isSelected_toggled,
      ColumnToggle.count_columnsOn]

/-- Two tables in different blocks; in the first one a column is chosen that is not declared. -/
def purchases : Canvas :=
  { ctes := [{ id := ⟨"q"⟩, name := "buyers", frame := default, block := { Block.empty with
      tables := [{ Table.create ⟨"u"⟩ "users" ["id", "name"] default with selected := ["id"] }] } }]
    root := { Block.empty with
      tables := [{ Table.create ⟨"o"⟩ "orders" ["id", "total"] default with
        selected := ["note"] }] } }

/-- One column of each sequence is toggled back; the columns are kept in different orders. -/
theorem order_of_choice_unseen_purchases :
    let ofOrder (column : String) : ColumnToggle := ⟨.root, ⟨"o"⟩, column⟩
    let ofUser (column : String) : ColumnToggle := ⟨.cte ⟨"q"⟩, ⟨"u"⟩, column⟩
    let xs := [ofOrder "id", ofOrder "total", ofUser "id"]
    let ys := [ofUser "name", ofOrder "total", ofUser "id", ofOrder "id", ofUser "name"]
    ((∀ x ∈ xs, purchases.IsPlain x) ∧ (∀ y ∈ ys, purchases.IsPlain y) ∧
      ColumnToggle.SameParity xs ys) ∧
      (((purchases.toggled xs).table? .root ⟨"o"⟩).map (·.selected) = some ["note", "id", "total"] ∧
        ((purchases.toggled ys).table? .root ⟨"o"⟩).map (·.selected) =
          some ["note", "total", "id"]) ∧
      (∀ l, Sql.render l (purchases.toggled xs) = Sql.render l (purchases.toggled ys)) ∧
      (purchases.toggled xs).shape = (purchases.toggled ys).shape ∧
      (purchases.toggled xs).choices = (purchases.toggled ys).choices := by
  intro ofOrder ofUser xs ys
  have hxs : ∀ x ∈ xs, purchases.IsPlain x := by decide
  have hys : ∀ y ∈ ys, purchases.IsPlain y := by decide
  have hparity : ColumnToggle.SameParity xs ys := by decide
  obtain ⟨hrender, hshape, hchoices, -⟩ := order_of_choice_unseen hxs hys hparity
  exact ⟨⟨hxs, hys, hparity⟩, by decide, hrender, hshape, hchoices⟩

end Canvas

end QueryCanvas
