import QueryCanvas.Canvas.Basic

/-!
# Chosen columns of a table box

Which columns of a table are chosen, how a choice is made and withdrawn, and the order in which
chosen columns are listed: declared columns first, in the declared order.
-/

set_option autoImplicit false

namespace QueryCanvas.Table

/-- A new table box in which nothing is chosen. -/
def create (id : EntityId) (name : String) (columns : List String) (position : Position) : Table :=
  { id := id, name := name, position := position, columns := columns, selected := []
    aggregates := .empty, cte := none }

def isSelected (t : Table) (column : String) : Bool := t.selected.contains column

/-- Chooses a column, unless it is chosen already. -/
def select (t : Table) (column : String) : Table :=
  if t.isSelected column then t else { t with selected := t.selected ++ [column] }

/-- Withdraws the choice of a column together with the aggregate around it. -/
def deselect (t : Table) (column : String) : Table :=
  { t with
    selected := t.selected.filter (· ≠ column)
    aggregates := t.aggregates.erase column }

/-- Chooses the column if it is not chosen, and withdraws the choice otherwise. -/
def toggle (t : Table) (column : String) : Table :=
  if t.isSelected column then t.deselect column else t.select column

/-- Puts an aggregate around a column, which is then chosen too, or takes it away. -/
def setAggregate (t : Table) (column : String) : Option ColumnAggregate → Table
  | some aggregate =>
    let t := t.select column
    { t with aggregates := t.aggregates.insert column aggregate }
  | none => { t with aggregates := t.aggregates.erase column }

/-- The chosen columns as they are listed: the declared ones in their declared order, then the
others in the order in which they were chosen. -/
def orderedSelection (t : Table) : List String :=
  t.columns.filter t.isSelected ++ t.selected.filter (!t.columns.contains ·)

end QueryCanvas.Table
