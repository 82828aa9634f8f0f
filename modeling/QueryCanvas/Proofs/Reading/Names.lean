import QueryCanvas.Proofs.Reading.Clauses

/-!
# What names refer to does not change behind the `FROM` clause

Names are resolved by the sources of a draft and by the names and the declared columns of its
tables.  What is read behind the `FROM` clause changes none of these, so a name refers to the same
thing in all of these clauses.
-/

set_option autoImplicit false

namespace QueryCanvas

/-- The table with nothing chosen. -/
def Table.unchosen (t : Table) : Table := { t with selected := [] }

/-- What is chosen of a table changes neither its identifier nor its name. -/
theorem Table.id_of_unchosen {t u : Table} (h : t.unchosen = u.unchosen) : t.id = u.id := by
  have hid : t.unchosen.id = u.unchosen.id := by rw [h]
  exact hid

theorem Table.name_of_unchosen {t u : Table} (h : t.unchosen = u.unchosen) : t.name = u.name := by
  have hname : t.unchosen.name = u.unchosen.name := by rw [h]
  exact hname

namespace Sql

/-- In both drafts names refer to the same: the sources are the same, so are the nested queries in
the `FROM` clause, and the tables differ at most in what is chosen. -/
structure Draft.SameNames (d d' : Draft) : Prop where
  sources : d'.sources = d.sources
  tables : d'.block.tables.map Table.unchosen = d.block.tables.map Table.unchosen
  derived : d'.block.subqueriesIn .fromClause = d.block.subqueriesIn .fromClause

/-- What is chosen does not matter for the table of a column that is written without one. -/
theorem Draft.owner_unchosen (d : Draft) (column : String) :
    (d.owner? column).map Table.unchosen =
      match d.block.tables.map Table.unchosen, d.block.subqueriesIn .fromClause with
      | [t], [] => some t
      | tables, _ =>
        match tables.filter fun t => t.columns.any (Text.sameName · column) with
        | [t] => some t
        | _ => none := by
  have howners : (match d.owners column with
      | [t] => some t
      | _ => none).map Table.unchosen =
        match (d.block.tables.map Table.unchosen).filter
            fun t => t.columns.any (Text.sameName · column) with
        | [t] => some t
        | _ => none := by
    have hmap : (d.block.tables.map Table.unchosen).filter
        (fun t => t.columns.any (Text.sameName · column)) =
          (d.owners column).map Table.unchosen := by
      rw [List.filter_map]
      rfl
    rw [hmap]
    match d.owners column with
    | [] | [_] | _ :: _ :: _ => rfl
  unfold Draft.owner?
  match htables : d.block.tables, hderived : d.block.subqueriesIn .fromClause with
  | [], _ => rw [htables] at howners; exact howners
  | [_], [] => rfl
  | [_], _ :: _ => rw [htables] at howners; exact howners
  | _ :: _ :: _, _ => rw [htables] at howners; exact howners

namespace Draft.SameNames

variable {d d' d'' : Draft}

theorem refl (d : Draft) : d.SameNames d := ⟨rfl, rfl, rfl⟩

theorem trans (h : d.SameNames d') (h' : d'.SameNames d'') : d.SameNames d'' :=
  ⟨h'.sources.trans h.sources, h'.tables.trans h.tables, h'.derived.trans h.derived⟩

theorem source (h : d.SameNames d') (name : String) : d'.source? name = d.source? name := by
  rw [Draft.source?, Draft.source?, h.sources]

/-- The table of an identifier. -/
theorem table (h : d.SameNames d') (id : EntityId) :
    (d'.block.table? id).map Table.unchosen = (d.block.table? id).map Table.unchosen := by
  have hfind : ∀ tables : List Table, (tables.find? (·.id = id)).map Table.unchosen =
      (tables.map Table.unchosen).find? (·.id = id) := fun tables => by
    rw [List.find?_map]
    rfl
  rw [Block.table?, Block.table?, hfind, hfind, h.tables]

theorem declared (h : d.SameNames d') (id : EntityId) (column : String) :
    d'.declared id column = d.declared id column := by
  have hcolumns : ∀ t : Option Table, (t.bind fun t => t.columns.find? (Text.sameName · column)) =
      (t.map Table.unchosen).bind fun t => t.columns.find? (Text.sameName · column) := by
    rintro (_ | t) <;> rfl
  rw [Draft.declared, Draft.declared, hcolumns, h.table, ← hcolumns]

/-- The table of a column that is written without one. -/
theorem owner (h : d.SameNames d') (column : String) :
    (d'.owner? column).map Table.unchosen = (d.owner? column).map Table.unchosen := by
  rw [owner_unchosen, owner_unchosen, h.tables, h.derived]

theorem owner_iff (h : d.SameNames d') (column : String) :
    d'.owner? column = none ∧ d.owner? column = none ∨
      ∃ t t', d'.owner? column = some t' ∧ d.owner? column = some t ∧ t'.id = t.id ∧
        t'.name = t.name := by
  have howner := h.owner column
  cases hd : d.owner? column with
  | none =>
    rw [hd] at howner
    exact .inl ⟨Option.map_eq_none_iff.1 howner, rfl⟩
  | some t =>
    rw [hd] at howner
    obtain ⟨t', ht', heq⟩ := Option.map_eq_some_iff.1 howner
    exact .inr ⟨t, t', ht', rfl, Table.id_of_unchosen heq, Table.name_of_unchosen heq⟩

theorem columnText (h : d.SameNames d') (c : ColumnName) : d'.columnText c = d.columnText c := by
  unfold Draft.columnText
  cases c.qualifier with
  | some qualifier =>
    simp only [h.source, h.declared]
  | none =>
    rcases h.owner_iff c.column with ⟨hd', hd⟩ | ⟨t, t', hd', hd, hid, hname⟩
    · rw [hd', hd]
    · simp only [hd', hd, hname, hid, h.declared]

theorem expressionText (h : d.SameNames d') : ∀ e, d'.expressionText e = d.expressionText e
  | .binary left op right => by
    rw [Draft.expressionText, Draft.expressionText, h.expressionText left, h.expressionText right]
  | .nested e => by rw [Draft.expressionText, Draft.expressionText, h.expressionText e]
  | .column parts => by simp only [Draft.expressionText, h.columnText]
  | .number _ _ | .text _ | .null | .subquery _ | .signed _ _ | .like _ _ _ _ _ _ | .test _ _
  | .inList _ _ _ | .inQuery _ _ _ | .between _ _ _ _ | .call _ _ _ _ | .other _ => rfl

theorem aggregate (h : d.SameNames d') (function : List Name) (arguments : Arguments)
    (tail : CallTail) :
    d'.aggregate? function arguments tail = d.aggregate? function arguments tail := by
  have hargument : d'.argumentText = d.argumentText := by
    funext a
    cases a with
    | expr e => exact congrArg Except.ok (h.expressionText e)
    | _ => rfl
  unfold Draft.aggregate?
  rw [hargument]

theorem selectionOwner (h : d.SameNames d') (c : ColumnName) :
    Sql.selectionOwner c d' = Sql.selectionOwner c d := by
  unfold Sql.selectionOwner
  cases c.qualifier with
  | some qualifier => simp only [h.source]
  | none =>
    rcases h.owner_iff c.column with ⟨hd', hd⟩ | ⟨t, t', hd', hd, hid, -⟩
    · rw [hd', hd]
    · simp only [hd', hd, hid]

theorem joinSide (h : d.SameNames d') (e : Expr) : Sql.joinSide e d' = Sql.joinSide e d := by
  unfold Sql.joinSide
  simp only [h.source, h.declared]

theorem sortColumn (h : d.SameNames d') (haliases : d'.aliases = d.aliases) (e : Expr) :
    Sql.sortColumn e d' = Sql.sortColumn e d := by
  unfold Sql.sortColumn
  simp only [h.columnText, h.aggregate, haliases]

end Draft.SameNames

end Sql

end QueryCanvas
