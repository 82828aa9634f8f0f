/-!
# Maps keyed by names

A finite map from names, held as its entries in increasing order of the names.  The order of the
characters' code points is the order of the names, so the entries of two equal maps are the same
list, and a map is listed in one way only.
-/

set_option autoImplicit false

namespace QueryCanvas

universe u

variable {α : Type u}

/-- A finite map from names: its entries in strictly increasing order of the names. -/
structure NameMap (α : Type u) where
  entries : List (String × α)
  sorted : entries.Pairwise fun a b => a.1 < b.1 := by exact List.Pairwise.nil
deriving DecidableEq

namespace NameMap

/-- The map without entries. -/
def empty : NameMap α := { entries := [] }

instance : Inhabited (NameMap α) := ⟨empty⟩

/-- Puts an entry at its place in an increasing list, over an entry of the same name. -/
def insertEntry (name : String) (value : α) : List (String × α) → List (String × α)
  | [] => [(name, value)]
  | entry :: rest =>
    if name < entry.1 then (name, value) :: entry :: rest
    else if name = entry.1 then (name, value) :: rest
    else entry :: insertEntry name value rest

theorem mem_insertEntry {name : String} {value : α} {x : String × α} {l : List (String × α)}
    (h : x ∈ insertEntry name value l) : x = (name, value) ∨ x ∈ l := by
  induction l with
  | nil => simpa [insertEntry] using h
  | cons entry rest ih =>
    simp only [insertEntry] at h
    split at h
    · simpa using h
    · split at h
      · rcases List.mem_cons.1 h with h | h
        · exact .inl h
        · exact .inr (List.mem_cons_of_mem _ h)
      · rcases List.mem_cons.1 h with h | h
        · exact .inr (h ▸ List.mem_cons_self)
        · exact (ih h).imp_right (List.mem_cons_of_mem _)

theorem sorted_insertEntry (name : String) (value : α) {l : List (String × α)}
    (h : l.Pairwise fun a b => a.1 < b.1) :
    (insertEntry name value l).Pairwise fun a b => a.1 < b.1 := by
  induction l with
  | nil => simp [insertEntry]
  | cons entry rest ih =>
    obtain ⟨hfirst, hrest⟩ := List.pairwise_cons.1 h
    simp only [insertEntry]
    split
    · rename_i hlt
      refine List.pairwise_cons.2 ⟨fun b hb => ?_, h⟩
      rcases List.mem_cons.1 hb with rfl | hb
      · exact hlt
      · exact String.lt_trans hlt (hfirst b hb)
    · rename_i hnot
      split
      · rename_i heq
        exact List.pairwise_cons.2 ⟨fun b hb => heq ▸ hfirst b hb, hrest⟩
      · rename_i hne
        refine List.pairwise_cons.2 ⟨fun b hb => ?_, ih hrest⟩
        rcases mem_insertEntry hb with rfl | hb
        · exact Decidable.byContradiction fun hge =>
            hne (String.le_antisymm (String.not_lt.1 hge) (String.not_lt.1 hnot))
        · exact hfirst b hb

/-- The map with one entry added, in place of an earlier entry of that name. -/
def insert (m : NameMap α) (name : String) (value : α) : NameMap α :=
  { entries := insertEntry name value m.entries
    sorted := sorted_insertEntry name value m.sorted }

/-- The map without the entry of a name. -/
def erase (m : NameMap α) (name : String) : NameMap α :=
  { entries := m.entries.filter fun entry => entry.1 ≠ name
    sorted := m.sorted.filter _ }

/-- The value of a name. -/
def find? (m : NameMap α) (name : String) : Option α :=
  (m.entries.find? fun entry => entry.1 = name).map (·.2)

/-- The map of a list of entries; of two entries of one name the later one counts. -/
def ofList (entries : List (String × α)) : NameMap α :=
  entries.foldl (fun m entry => m.insert entry.1 entry.2) empty

/-- The names in increasing order. -/
def names (m : NameMap α) : List String := m.entries.map (·.1)

def isEmpty (m : NameMap α) : Bool := m.entries.isEmpty

end NameMap

end QueryCanvas
