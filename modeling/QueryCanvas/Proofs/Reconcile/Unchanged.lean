import QueryCanvas.Proofs.Arrangement.Sides
import QueryCanvas.Proofs.Reconcile.Replaced

/-!
# Outer joins of a text that leaves a canvas as it is

A text leaves a canvas as it is if the two have the same shape.  A shape says which tables are
joined how, but not which of them is written first, and this is what decides on the side of an
outer join whose rows are all kept.  The canvas keeps the sides of the text exactly if it writes
every table that the text brings in by an outer join after a table that it is so joined with.
-/

set_option autoImplicit false

namespace QueryCanvas

namespace Sql

/-! ## What a text brings in -/

/-- The name of the table that a source is. -/
def Source.tableName? : Source → Option String
  | .table name _ _ _ => some (plainPath name)
  | _ => none

/-- The table that a join brings in, with the kind of the join. -/
def JoinClause.brought? : JoinClause → Option (JoinKind × String)
  | .mk _ (.kind kind) source _ => source.tableName?.map (kind, ·)
  | _ => none

/-- The tables that the joins of a query bring in as their right operands. -/
def Query.brought : Query → List (JoinKind × String)
  | .mk _ _ (.select _ sources _ _ _ _) _ _ _ =>
    sources.flatMap fun | .mk _ joins => joins.filterMap JoinClause.brought?
  | _ => []

end Sql

open Sql

namespace Reader

variable {r : Reader} {c : Canvas} {text : String} {n : Nat}

/-- Each table that a text brings in by a `LEFT JOIN` or a `RIGHT JOIN` is brought in by a step of
that kind where the canvas is written. -/
def KeepsSides (r : Reader) (c : Canvas) (text : String) : Prop :=
  ∀ q, Query.parse r.dialect text = .ok q → ∀ kind, kind = .left ∨ kind = .right →
    ∀ name, (kind, name) ∈ q.brought →
      ∃ t ∈ c.root.tables, Text.sameName t.name name ∧ c.root.BringsIn kind t

/-- Each table that a text brings in by a `LEFT JOIN` or a `RIGHT JOIN` is written on the canvas
after a table that a join of that kind connects it with, by what the text says. -/
def WritesLater (r : Reader) (c : Canvas) (text : String) (n : Nat) : Prop :=
  ∃ shape, ((r.shape text).run n).1 = .ok shape ∧
    ∀ q, Query.parse r.dialect text = .ok q → ∀ kind, kind = .left ∨ kind = .right →
      ∀ name, (kind, name) ∈ q.brought →
        ∃ t ∈ c.root.tables, Text.sameName t.name name ∧
          ∃ a ∈ c.root.tables, Before (fromItems c.root) a.id t.id ∧
            ∃ j ∈ shape.root.joins, j.kind = kind ∧ j.Ties a.name t.name

/-- A text that leaves the canvas as it is says what is read off the query of the canvas. -/
theorem reads_unchanged :
    Reads n (r.reconcile? c .root text) fun result _ => result = none →
      ∃ parsed n', (r.canvas text).run n = (.ok parsed, n') ∧
        parsed.shape = (r.writtenShape c n').1 := by
  unfold reconcile?
  refine Reads.bind (readText_drawn _ _ _ n).ran fun parsed m _ hparsed => ?_
  have hwritten : Yields m (r.writtenShape c) fun shape _ => shape = (r.writtenShape c m).1 :=
    ⟨(r.yields_writtenShape c m).counter, rfl⟩
  refine Reads.bind (Reads.lift hwritten) fun current n' _ hcurrent => Reads.pure fun hnone => ?_
  split at hnone
  · rename_i hsame
    exact ⟨parsed, m, hparsed.1, hsame.trans hcurrent⟩
  · cases hnone

/-- A canvas that a text leaves as it is keeps the sides of the outer joins of the text exactly if
it writes their right operands late enough.  The canvas is one that writes joins as they are drawn
and whose query says what the canvas says. -/
theorem unchanged_keeps_sides_iff (hids : (c.root.tables.map (·.id)).Nodup)
    (hnames : (c.root.tables.map (·.name)).Nodup) (hkinds : overriddenJoins c.root = [])
    (hwritten : (r.writtenShape c ((r.canvas text).run n).2).1 = c.shape)
    (h : (r.reconcile c .root text n).1 = .unchanged) :
    r.KeepsSides c text ↔ r.WritesLater c text n := by
  have hnone := reconcile?_of_unchanged h
  obtain ⟨parsed, n', hrun, hsame⟩ := reads_unchanged.result _ _ (Prod.ext hnone rfl) rfl
  have hshape : ((r.shape text).run n).1 = .ok parsed.shape := run_map_ok Canvas.shape hrun
  rw [hrun] at hwritten
  have hjoins : parsed.shape.root.joins = c.root.shape.joins := by
    rw [hsame, hwritten]
    rfl
  have hbrings {kind : JoinKind} {t : Table} (ht : t ∈ c.root.tables) :=
    Block.bringsIn_iff kind hids hnames hkinds ht
  unfold KeepsSides WritesLater
  rw [hshape]
  constructor
  · intro hkeeps
    refine ⟨parsed.shape, rfl, fun q hq kind hkind name hname => ?_⟩
    obtain ⟨t, ht, hsame, hin⟩ := hkeeps q hq kind hkind name hname
    rw [hjoins]
    exact ⟨t, ht, hsame, (hbrings ht).1 hin⟩
  · rintro ⟨_, ⟨⟩, hlater⟩ q hq kind hkind name hname
    obtain ⟨t, ht, hsame, hin⟩ := hlater q hq kind hkind name hname
    rw [hjoins] at hin
    exact ⟨t, ht, hsame, (hbrings ht).2 hin⟩

/-! ## Two tables with an outer join -/

/-- What a canvas says by its query, if that can be read. -/
theorem writtenShape_eq {written : String} {shape : CanvasShape}
    (hrender : render .compact c = written) (hshape : ((r.shape written).run n).1 = .ok shape) :
    (r.writtenShape c n).1 = shape := by
  unfold writtenShape
  rw [hrender]
  simp only [bind, StateT.bind]
  split
  rename_i result n' hrun
  rw [hrun] at hshape
  obtain rfl : result = .ok shape := hshape
  rfl

/-- A text of the same shape as the query of a canvas leaves the canvas as it is. -/
theorem unchanged_of_shape {m : Nat} {shape : CanvasShape}
    (hcounter : ((r.canvas text).run n).2 = m) (hshape : ((r.shape text).run n).1 = .ok shape)
    (hwritten : (r.writtenShape c m).1 = shape) :
    (r.reconcile c .root text n).1 = .unchanged := by
  have hresult : ((r.reconcile? c .root text).run n).1 = .ok none := by
    unfold reconcile?
    rw [Reads.run_bind]
    unfold Reader.shape at hshape
    rw [Reads.run_map] at hshape
    cases hrun : (r.canvas text).run n with
    | mk result m' =>
      rw [hrun] at hcounter hshape
      obtain rfl : m' = m := hcounter
      cases result with
      | error e => cases hshape
      | ok parsed =>
        have hsame : parsed.shape = (r.writtenShape c m').1 :=
          (Except.ok.inj hshape).trans hwritten.symm
        exact congrArg Except.ok (if_pos hsame)
  unfold reconcile
  simp only [bind, StateT.bind]
  split
  rename_i result m' hrun
  rw [hrun] at hresult
  obtain rfl : result = .ok none := hresult
  rfl

/-- The table `a`, whose only column is chosen. -/
def leftTable : Table :=
  { id := EntityId.minted 0, name := "a", position := default, columns := [], selected := ["x"]
    aggregates := .empty, cte := none }

/-- The table `b`, of which no column is chosen. -/
def rightTable : Table :=
  { id := EntityId.minted 1, name := "b", position := default, columns := [], selected := []
    aggregates := .empty, cte := none }

/-- A canvas of given tables with a left join of `a` with `b`. -/
def leftJoined (tables : List Table) : Canvas :=
  { ctes := []
    root := { Block.empty with
      tables
      joins := [{
        id := EntityId.minted 2, sourceTable := EntityId.minted 0, sourceColumn := "x"
        targetTable := EntityId.minted 1, targetColumn := "x", kind := .left }] } }

/-- What the text `SELECT a.x FROM a LEFT JOIN b ON a.x = b.x` says. -/
def leftShape : CanvasShape :=
  { ctes := []
    root := {
      tables := ["a", "b"], columns := ["a.x"], joins := [⟨"a", "x", "b", "x", .left⟩]
      filters := [], groupBy := [], having := [], orderBy := [], limit := none, aggregates := []
      subqueries := [] } }

theorem shape_left_join :
    ((unknowing.shape "SELECT a.x FROM a LEFT JOIN b ON a.x = b.x").run 3).1 = .ok leftShape := by
  decide +kernel

theorem counter_left_join :
    ((unknowing.canvas "SELECT a.x FROM a LEFT JOIN b ON a.x = b.x").run 3).2 = 6 := by
  decide +kernel

/-- The text keeps its sides exactly if the canvas brings in `b` by a left join. -/
theorem keepsSides_left_join :
    unknowing.KeepsSides c "SELECT a.x FROM a LEFT JOIN b ON a.x = b.x" ↔
      ∃ t ∈ c.root.tables, Text.sameName t.name "b" ∧ c.root.BringsIn .left t := by
  have hbrought : (Query.parse .generic "SELECT a.x FROM a LEFT JOIN b ON a.x = b.x").map
      Query.brought = .ok [(.left, "b")] := by decide +kernel
  unfold KeepsSides
  cases hparse : Query.parse unknowing.dialect "SELECT a.x FROM a LEFT JOIN b ON a.x = b.x" with
  | error e =>
    rw [show Query.parse .generic "SELECT a.x FROM a LEFT JOIN b ON a.x = b.x" = _ from hparse]
      at hbrought
    cases hbrought
  | ok q =>
    rw [show Query.parse .generic "SELECT a.x FROM a LEFT JOIN b ON a.x = b.x" = _ from hparse]
      at hbrought
    have hq : q.brought = [(.left, "b")] := Except.ok.inj hbrought
    constructor
    · intro h
      exact h q rfl .left (.inl rfl) "b" (by simp [hq])
    · rintro h _ ⟨⟩ kind - name hname
      rw [hq, List.mem_singleton] at hname
      obtain ⟨rfl, rfl⟩ := Prod.mk.inj hname
      exact h

/-- Where the canvas draws `b` before `a`, it keeps all rows of `b`, and the text that keeps all
rows of `a` leaves it as it is. -/
theorem sides_swapped_unchanged :
    ((leftJoined [rightTable, leftTable]).root.tables.map (·.id)).Nodup ∧
      (unknowing.reconcile (leftJoined [rightTable, leftTable]) .root
        "SELECT a.x FROM a LEFT JOIN b ON a.x = b.x" 3).1 = .unchanged ∧
      ¬unknowing.KeepsSides (leftJoined [rightTable, leftTable])
        "SELECT a.x FROM a LEFT JOIN b ON a.x = b.x" := by
  have hrender : render .compact (leftJoined [rightTable, leftTable]) =
      "SELECT a.x FROM b LEFT JOIN a ON a.x = b.x" := by decide +kernel
  have hwritten : ((unknowing.shape "SELECT a.x FROM b LEFT JOIN a ON a.x = b.x").run 6).1 =
      .ok leftShape := by decide +kernel
  have hitems : fromItems (leftJoined [rightTable, leftTable]).root = [{
      base := rightTable
      steps := [{
        kind := .left
        joined := some leftTable
        conditions := (leftJoined []).root.joins }] }] := by
    decide +kernel
  refine ⟨by decide, unchanged_of_shape counter_left_join shape_left_join
    (writtenShape_eq hrender hwritten), ?_⟩
  rw [keepsSides_left_join]
  rintro ⟨t, -, hsame, item, hitem, s, hs, -, hjoined⟩
  rw [hitems, List.mem_singleton] at hitem
  subst hitem
  rw [List.mem_singleton.1 hs] at hjoined
  cases hjoined
  exact absurd hsame (by decide +kernel)

/-- Where the canvas draws `a` before `b`, it keeps the side of the text. -/
theorem unchanged_keeps_sides_drawn :
    ((leftJoined [leftTable, rightTable]).root.tables.map (·.id)).Nodup ∧
      (unknowing.reconcile (leftJoined [leftTable, rightTable]) .root
        "SELECT a.x FROM a LEFT JOIN b ON a.x = b.x" 3).1 = .unchanged ∧
      unknowing.KeepsSides (leftJoined [leftTable, rightTable])
        "SELECT a.x FROM a LEFT JOIN b ON a.x = b.x" ∧
      unknowing.WritesLater (leftJoined [leftTable, rightTable])
        "SELECT a.x FROM a LEFT JOIN b ON a.x = b.x" 3 := by
  have hrender : render .compact (leftJoined [leftTable, rightTable]) =
      "SELECT a.x FROM a LEFT JOIN b ON a.x = b.x" := by decide +kernel
  have hshape : ((unknowing.shape "SELECT a.x FROM a LEFT JOIN b ON a.x = b.x").run 6).1 =
      .ok leftShape := by decide +kernel
  have hitems : fromItems (leftJoined [leftTable, rightTable]).root = [{
      base := leftTable
      steps := [{
        kind := .left
        joined := some rightTable
        conditions := (leftJoined []).root.joins }] }] := by
    decide +kernel
  have hwritten := writtenShape_eq hrender hshape
  have hunchanged := unchanged_of_shape counter_left_join shape_left_join hwritten
  have hkeeps : unknowing.KeepsSides (leftJoined [leftTable, rightTable])
      "SELECT a.x FROM a LEFT JOIN b ON a.x = b.x" := by
    rw [keepsSides_left_join]
    refine ⟨rightTable, by simp [leftJoined], by decide +kernel, ?_⟩
    have hstep := List.mem_singleton_self (a := JoinStep.mk JoinKind.left (some rightTable)
      (leftJoined []).root.joins)
    exact ⟨_, by rw [hitems]; exact List.mem_singleton_self _, _, hstep, rfl, rfl⟩
  have hiff := unchanged_keeps_sides_iff (r := unknowing)
    (c := leftJoined [leftTable, rightTable]) (n := 3) (by decide) (by decide) (by decide +kernel)
    (by rw [counter_left_join, hwritten]; decide +kernel) hunchanged
  exact ⟨by decide, hunchanged, hkeeps, hiff.1 hkeeps⟩

end Reader

end QueryCanvas
