import QueryCanvas.Canvas.Cte

/-!
# Edits as values

A step of drawing is a value: an edit of one block, or an edit of the canvas as a whole.  Applying
an edit takes an identifier that it may use for a new entity, and says what came of it.  An edit
that names something absent, or that is refused, leaves its block or canvas as it is.
-/

set_option autoImplicit false

namespace QueryCanvas

/-- What came of an edit. -/
inductive EditResult where
  /-- An entity was to be made; none if that was refused. -/
  | created (id : Option EntityId)
  /-- A statement on what the edit did. -/
  | flag (value : Bool)
  /-- The edit has nothing to say. -/
  | done
deriving DecidableEq, Repr

/-- An edit of one block. -/
inductive BlockEdit where
  | addTable (name : String) (columns : List String) (position : Position)
  | removeTable (id : EntityId)
  | moveTable (id : EntityId) (position : Position)
  | toggleColumn (table : EntityId) (column : String)
  | selectColumn (table : EntityId) (column : String)
  | deselectColumn (table : EntityId) (column : String)
  | setColumnAggregate (table : EntityId) (column : String) (aggregate : Option ColumnAggregate)
  | addJoin (sourceTable : EntityId) (sourceColumn : String) (targetTable : EntityId)
      (targetColumn : String) (kind : JoinKind)
  | setJoinKind (id : EntityId) (kind : JoinKind)
  | setJoinColumns (id : EntityId) (sourceColumn targetColumn : String)
  | removeJoin (id : EntityId)
  | addFilter (column : String) (operator : FilterOperator) (value : String)
  | updateFilter (id : EntityId) (update : FilterUpdate)
  | removeFilter (id : EntityId)
  | addGrouping (column : String)
  | removeGrouping (id : EntityId)
  | addHaving (function : AggregateFunction) (column : String) (operator : Comparison)
      (value : String)
  | updateHaving (id : EntityId) (update : HavingUpdate)
  | removeHaving (id : EntityId)
  | addSortTerm (column : String) (direction : SortDirection)
  | setDirection (id : EntityId) (direction : SortDirection)
  | removeSortTerm (id : EntityId)
  | setLimit (limit : Option Limit)
  | addAggregate (function : AggregateFunction) (expression : String) (aliasName : Option String)
  | updateAggregate (id : EntityId) (update : SelectAggregateUpdate)
  | removeAggregate (id : EntityId)
  | addSubquery (role : SubqueryRole) (filter : Option EntityId) (frame : Frame)
  | linkFilter (filter subquery : EntityId)
  | removeSubquery (id : EntityId)
  | setSubqueryAlias (id : EntityId) (aliasName : Option String)
deriving DecidableEq

namespace BlockEdit

/-- The block after an edit, in which a new entity has the identifier `new`. -/
def apply (new : EntityId) (b : Block) : BlockEdit → Block
  | addTable name columns position => b.addTable (Table.create new name columns position)
  | removeTable id => b.removeTable id
  | moveTable id position => b.updateTable id fun t => { t with position := position }
  | toggleColumn table column => b.updateTable table (·.toggle column)
  | selectColumn table column => b.updateTable table (·.select column)
  | deselectColumn table column => b.updateTable table (·.deselect column)
  | setColumnAggregate table column aggregate =>
    b.updateTable table (·.setAggregate column aggregate)
  | addJoin sourceTable sourceColumn targetTable targetColumn kind =>
    b.addJoin { id := new, sourceTable, sourceColumn, targetTable, targetColumn, kind }
  | setJoinKind id kind => b.updateJoin id fun j => { j with kind := kind }
  | setJoinColumns id source target =>
    b.updateJoin id fun j => { j with sourceColumn := source, targetColumn := target }
  | removeJoin id => b.removeJoin id
  | addFilter column operator value =>
    b.addFilter { id := new, column, operator, operand := .value value, connector := .and }
  | updateFilter id update => b.updateFilter id update
  | removeFilter id => b.removeFilter id
  | addGrouping column => b.addGrouping { id := new, column }
  | removeGrouping id => b.removeGrouping id
  | addHaving function column operator value =>
    b.addHaving { id := new, function, column, operator, value, connector := .and }
  | updateHaving id update => b.updateHaving id update
  | removeHaving id => b.removeHaving id
  | addSortTerm column direction => b.addSortTerm { id := new, column, direction }
  | setDirection id direction => b.setDirection id direction
  | removeSortTerm id => b.removeSortTerm id
  | setLimit limit => { b with limit := limit }
  | addAggregate function expression aliasName =>
    b.addAggregate { id := new, function, expression, aliasName }
  | updateAggregate id update => b.updateAggregate id update
  | removeAggregate id => b.removeAggregate id
  | addSubquery role filter frame => b.addSubquery new role filter frame
  | linkFilter filter subquery => b.linkFilter filter subquery
  | removeSubquery id => b.removeSubquery id
  | setSubqueryAlias id aliasName => b.setSubqueryAlias id aliasName

/-- What comes of an edit of a block.  Removals say whether there was something to remove, and a
toggle says whether the column is chosen afterwards. -/
def result (new : EntityId) (b : Block) : BlockEdit → EditResult
  | addTable .. | addFilter .. | addGrouping .. | addHaving .. | addSortTerm ..
  | addAggregate .. => .created (some new)
  | addJoin source _ target _ _ => .created (if b.canJoin source target then some new else none)
  | addSubquery role filter _ => .created (if b.canNest role filter then some new else none)
  | removeTable id => .flag (b.table? id).isSome
  | removeJoin id => .flag (b.joins.any (·.id = id))
  | removeFilter id => .flag (b.filter? id).isSome
  | removeGrouping id => .flag (b.groupBy.any (·.id = id))
  | removeHaving id => .flag (b.having.any (·.id = id))
  | removeSortTerm id => .flag (b.orderBy.any (·.id = id))
  | removeAggregate id => .flag (b.aggregates.any (·.id = id))
  | removeSubquery id => .flag (b.subquery? id).isSome
  | toggleColumn table column => .flag ((b.table? table).any fun t => !t.isSelected column)
  | moveTable .. | selectColumn .. | deselectColumn .. | setColumnAggregate .. | setJoinKind ..
  | setJoinColumns .. | updateFilter .. | updateHaving .. | setDirection .. | setLimit ..
  | updateAggregate .. | linkFilter .. | setSubqueryAlias .. => .done

end BlockEdit

/-- An edit of a canvas as a whole.  `reference` adds a table that reads a named query. -/
inductive CanvasEdit where
  | inBlock (focus : Focus) (edit : BlockEdit)
  | addCte (name : String) (frame : Frame)
  | reference (focus : Focus) (cte : EntityId) (position : Position)
  | removeSubquery (id : EntityId)
  | renameCte (id : EntityId) (name : String)
  | removeCte (id : EntityId)
  | refreshCteColumns (id : EntityId)
deriving DecidableEq

namespace CanvasEdit

/-- The canvas after an edit, in which a new entity has the identifier `new`. -/
def apply (new : EntityId) (c : Canvas) : CanvasEdit → Canvas
  | inBlock focus edit => c.updateBlock focus fun b => edit.apply new b
  | addCte name frame => c.addCte new name frame
  | reference focus cte position => c.addCteReference focus cte new position
  | removeSubquery id => (c.removeSubquery? id).getD c
  | renameCte id name => c.renameCte id name
  | removeCte id => c.removeCte id
  | refreshCteColumns id => c.refreshCteColumns id

/-- What comes of an edit of a canvas; none if it is the edit of a block that is not there. -/
def result? (new : EntityId) (c : Canvas) : CanvasEdit → Option EditResult
  | inBlock focus edit => (c.block? focus).map (edit.result new)
  | addCte .. => some (.created (some new))
  | reference focus cte _ =>
    some (.created (if c.canReference focus cte then some new else none))
  | removeSubquery id => some (.flag (c.removeSubquery? id).isSome)
  | removeCte id => some (.flag (c.cte? id).isSome)
  | renameCte .. | refreshCteColumns .. => some .done

end CanvasEdit

end QueryCanvas
