import QueryCanvas.Canvas.Block

/-!
# The arrangement of a `FROM` clause

The tables of a block are arranged in items separated by commas.  An item begins with a table and
goes on with join steps, each of which brings in one further table.  A join whose two tables are
both in place adds its condition to the step that brought in the later of them.  A join that
touches nothing in place waits until another join reaches it; if none does, it begins an item.
-/

set_option autoImplicit false

namespace QueryCanvas.Sql

/-- A join step: the table it brings in, if the join leads to one, and its conditions. -/
structure JoinStep where
  kind : JoinKind
  joined : Option Table
  conditions : List Join
deriving DecidableEq

/-- An item of the `FROM` clause. -/
structure FromItem where
  base : Table
  steps : List JoinStep
deriving DecidableEq

/-- A join with the two tables it connects. -/
structure Link where
  join : Join
  source : Table
  target : Table
deriving DecidableEq

/-- Where a table stands: the number of its item and the number of its place there, which is zero
for the first table of the item.  Places are ordered by item and then by place. -/
structure Place where
  item : Nat
  place : Nat
deriving DecidableEq, Repr

namespace Place

/-- Whether one place comes before another or is the same. -/
def le (a b : Place) : Bool := a.item < b.item || (a.item = b.item && a.place ≤ b.place)

end Place

namespace FromItem

/-- The tables of an item in the order in which it writes them. -/
def tables (item : FromItem) : List Table := item.base :: item.steps.filterMap (·.joined)

/-- The number of the place of a table in an item. -/
def place? (item : FromItem) (id : EntityId) : Option Nat :=
  if item.base.id = id then some 0
  else (item.steps.findIdx? fun s => s.joined.any (·.id = id)).map (· + 1)

end FromItem

/-- Looks for a table from the item of the given number on. -/
def placeFrom? (id : EntityId) : Nat → List FromItem → Option Place
  | _, [] => none
  | n, item :: rest =>
    match item.place? id with
    | some p => some ⟨n, p⟩
    | none => placeFrom? id (n + 1) rest

/-- Where a table stands, if it is in place. -/
def place? (items : List FromItem) (id : EntityId) : Option Place := placeFrom? id 0 items

/-- Adds a step at the end of an item. -/
def addStep (items : List FromItem) (n : Nat) (step : JoinStep) : List FromItem :=
  items.modify n fun item => { item with steps := item.steps ++ [step] }

/-- Adds a condition to the step that brought in the table of a place.  The first table of an item
was brought in by no step, and then nothing is added. -/
def addCondition (items : List FromItem) (p : Place) (join : Join) : List FromItem :=
  match p.place with
  | 0 => items
  | k + 1 =>
    items.modify p.item fun item =>
      { item with
        steps := item.steps.modify k fun s => { s with conditions := s.conditions ++ [join] } }

/-- A step with the condition of one join. -/
def stepOf (join : Join) (joined : Option Table) : JoinStep :=
  { kind := join.kind, joined := joined, conditions := [join] }

/-- Puts a join in place if one of its tables is; the flag says whether it brought in a table. -/
def attach? (items : List FromItem) (l : Link) : Option (List FromItem × Bool) :=
  match place? items l.source.id, place? items l.target.id with
  | some p, none => some (addStep items p.item (stepOf l.join (some l.target)), true)
  | none, some p => some (addStep items p.item (stepOf l.join (some l.source)), true)
  | some p, some q => some (addCondition items (if q.le p then p else q) l.join, false)
  | none, none => none

/-- Takes up each join in turn: the items afterwards, the joins that still wait, and whether any
join brought in a table. -/
def pass : List FromItem → List Link → List FromItem × List Link × Bool
  | items, [] => (items, [], false)
  | items, l :: rest =>
    match attach? items l with
    | some (items, placed) =>
      let (items, waiting, progressed) := pass items rest
      (items, waiting, placed || progressed)
    | none =>
      let (items, waiting, progressed) := pass items rest
      (items, l :: waiting, progressed)

/-- No join waits that was not there, and one that brought in a table waits no longer. -/
theorem length_pass (items : List FromItem) (links : List Link) :
    (pass items links).2.1.length + (pass items links).2.2.toNat ≤ links.length := by
  induction links generalizing items with
  | nil => simp [pass]
  | cons l rest ih =>
    simp only [pass]
    split
    · rename_i next placed _
      have hrest := ih next
      have hflag : (placed || (pass next rest).2.2).toNat ≤ 1 + (pass next rest).2.2.toNat := by
        cases placed <;> cases (pass next rest).2.2 <;> decide
      show (pass next rest).2.1.length + (placed || (pass next rest).2.2).toNat ≤ rest.length + 1
      omega
    · have hrest := ih items
      show (pass items rest).2.1.length + 1 + (pass items rest).2.2.toNat ≤ rest.length + 1
      omega

/-- Begins an item with a join that nothing in place reaches.  The item begins with the one of its
two tables that was drawn first. -/
def seed (tables : List Table) (items : List FromItem) (l : Link) : List FromItem :=
  let order (t : Table) : Nat := tables.findIdx (·.id = t.id)
  let (base, joined) :=
    if order l.source ≤ order l.target then (l.source, l.target) else (l.target, l.source)
  items ++ [{ base := base, steps := [stepOf l.join (some joined)] }]

/-- Puts all joins in place, in passes over those that still wait. -/
def settle (tables : List Table) (items : List FromItem) (pending : List Link) :
    List FromItem :=
  match _h : pass items pending with
  | (next, [], _) => next
  | (next, waiting, true) => settle tables next waiting
  | (next, l :: rest, false) => settle tables (seed tables next l) rest
termination_by pending.length
decreasing_by
  all_goals
    have hlength := length_pass items pending
    rw [_h] at hlength
    simp only [List.length_cons, Bool.toNat_true, Bool.toNat_false] at hlength
    omega

/-- Adds a table that no join put in place as an item of its own. -/
def addAlone (items : List FromItem) (t : Table) : List FromItem :=
  if (place? items t.id).isSome then items else items ++ [{ base := t, steps := [] }]

/-- Adds a join that leads to a table that is not there, as a step without a table, to the item of
the table that is there, and to the first item if neither is. -/
def addUnresolved (items : List FromItem) (join : Join) : List FromItem :=
  let anchor := (place? items join.sourceTable).or (place? items join.targetTable)
  addStep items ((anchor.map (·.item)).getD 0) (stepOf join none)

/-- The two tables of a join, if both are there. -/
def link? (b : Block) (join : Join) : Option Link :=
  match b.table? join.sourceTable, b.table? join.targetTable with
  | some source, some target => some { join, source, target }
  | _, _ => none

/-- The items of the `FROM` clause of a block. -/
def fromItems (b : Block) : List FromItem :=
  let first := (b.tables.take 1).map fun t => { base := t, steps := [] }
  let links := (b.joins.filterMap (link? b)).filter fun l => l.source.id ≠ l.target.id
  let unresolved := b.joins.filter fun j => (link? b j).isNone
  unresolved.foldl addUnresolved (b.tables.foldl addAlone (settle b.tables first links))

/-- The joins that are written as another kind than their own, with that kind: they add their
condition to a step of that kind. -/
def overriddenJoins (b : Block) : List (Join × JoinKind) :=
  (fromItems b).flatMap fun item => item.steps.flatMap fun s =>
    (s.conditions.filter (·.kind ≠ s.kind)).map (·, s.kind)

end QueryCanvas.Sql
