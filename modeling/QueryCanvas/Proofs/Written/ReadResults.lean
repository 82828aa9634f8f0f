import QueryCanvas.Proofs.Canvas.Links
import QueryCanvas.Proofs.Written.ReadFrom

/-!
# Reading the results of a written select

Each column among the results is chosen of the table of its name, each aggregate and each nested
query is added to the block.  What names refer to stays as it is.
-/

set_option autoImplicit false

namespace QueryCanvas.Sql

open Drafting

variable {s : Scope} {lo m : Nat} {d₀ d : Draft} {ν : Type} {p : ν → Part Query} {t : ν → String}

/-! ## What names stand for -/

/-- Behind the `FROM` clause a column is written as it was. -/
theorem Draft.SameNames.columnText_plain (h : d₀.SameNames d) (h₀ : d₀.Entered s lo m)
    (hs : s.Lower) {c : TableColumn} (hc : c.Plain) :
    d.columnText ⟨some c.table, c.column⟩ = c.text :=
  (h.columnText _).trans (h₀.columnText hs hc)

theorem Draft.SameNames.argumentText_plain (h : d₀.SameNames d) (h₀ : d₀.Entered s lo m)
    (hs : s.Lower) {a : Aggregated} (ha : ∀ c ∈ a, c.Plain) :
    d.argumentText a.part.value = .ok a.text := by
  cases a with
  | none => rfl
  | some c => exact congrArg Except.ok (h.columnText_plain h₀ hs (ha c rfl))

theorem ofName?_sql (f : AggregateFunction) : AggregateFunction.ofName? f.sql = some f := by
  cases f <;> decide +kernel

/-- A call of an aggregate function is taken as what it is. -/
theorem Draft.SameNames.aggregate_plain (h : d₀.SameNames d) (h₀ : d₀.Entered s lo m)
    (hs : s.Lower) (f : AggregateFunction) {a : Aggregated} (ha : ∀ c ∈ a, c.Plain) :
    d.aggregate? [.bare f.sql] (.list none [a.part.value] []) .none = .ok (some (f, a.text)) := by
  have hname : ((([Name.bare f.sql].getLast?).map (·.value)).getD "") = f.sql := rfl
  unfold Draft.aggregate?
  simp only [hname, ofName?_sql]
  show (do
    let texts ← [a.part.value].mapM d.argumentText
    return some (f, joined ", " texts)) = _
  rw [List.mapM_cons, h.argumentText_plain h₀ hs ha]
  rfl

/-! ## Chosen columns -/

/-- The table with the columns chosen that are written with its name. -/
def picked (cs : List TableColumn) (u : Table) : Table :=
  ((cs.filter (·.table = u.name)).map (·.column)).foldl Table.select u

theorem unchosen_picked (cs : List TableColumn) (u : Table) :
    (picked cs u).unchosen = u.unchosen := unchosen_foldl_select _ u

theorem id_picked (cs : List TableColumn) (u : Table) : (picked cs u).id = u.id :=
  Table.id_of_unchosen (unchosen_picked cs u)

theorem name_picked (cs : List TableColumn) (u : Table) : (picked cs u).name = u.name :=
  Table.name_of_unchosen (unchosen_picked cs u)

theorem columns_picked (cs : List TableColumn) (u : Table) :
    (picked cs u).columns = u.columns := by
  have h : (picked cs u).unchosen.columns = u.unchosen.columns := by rw [unchosen_picked]
  exact h

theorem aggregates_picked (cs : List TableColumn) (u : Table) :
    (picked cs u).aggregates = u.aggregates := by
  have h : (picked cs u).unchosen.aggregates = u.unchosen.aggregates := by rw [unchosen_picked]
  exact h

theorem picked_nil (u : Table) : picked [] u = u := rfl

theorem picked_concat (cs : List TableColumn) (c : TableColumn) (u : Table) :
    picked (cs ++ [c]) u =
      if c.table = u.name then (picked cs u).select c.column else picked cs u := by
  rw [picked, List.filter_append, List.map_append, List.foldl_append]
  split
  · rename_i h
    rw [List.filter_cons_of_pos (by simpa using h)]
    rfl
  · rename_i h
    rw [List.filter_cons_of_neg (by simpa using h)]
    rfl

theorem selected_foldl_select (columns : List String) (u : Table) :
    (columns.foldl Table.select u).selected = Block.addNew u.selected columns := by
  induction columns generalizing u with
  | nil => rfl
  | cons column columns ih =>
    have hone : (u.select column).selected =
        if u.selected.contains column then u.selected else u.selected ++ [column] := by
      unfold Table.select Table.isSelected
      split <;> rfl
    rw [List.foldl_cons, ih, hone]
    rfl

theorem selected_picked (cs : List TableColumn) {u : Table} (hu : u.selected = []) :
    (picked cs u).selected =
      Block.addNew [] ((cs.filter (·.table = u.name)).map (·.column)) := by
  rw [picked, selected_foldl_select, hu]

/-- Choosing a column of the table of its name. -/
theorem updateTable_picked {tables : List Table} (hids : (tables.map (·.id)).Nodup)
    (hnames : (tables.map (·.name)).Nodup) {u : Table} (hu : u ∈ tables) {c : TableColumn}
    (hname : u.name = c.table) (cs : List TableColumn) :
    updateFirst (·.id = u.id) (·.select c.column) (tables.map (picked cs)) =
      tables.map (picked (cs ++ [c])) := by
  have hids' : ((tables.map (picked cs)).map (·.id)).Nodup := by
    rw [List.map_map]
    simpa only [Function.comp_def, id_picked] using hids
  rw [updateFirst_eq_map_of_nodup hids', List.map_map]
  refine List.map_congr_left fun v hv => ?_
  rw [Function.comp_apply, id_picked, picked_concat, ← hname]
  by_cases hvu : v = u
  · rw [hvu, if_pos rfl, if_pos rfl]
  · rw [if_neg fun h => hvu (List.inj_on_of_nodup_map hids hv hu h),
      if_neg fun h => hvu (List.inj_on_of_nodup_map hnames hv hu h.symm)]

/-! ## Results -/

/-- The aggregate is read off a written one. -/
structure CallRead (c : WrittenCall) (a : SelectAggregate) : Prop where
  function : a.function = c.function
  expression : a.expression = c.argument.text
  aliasName : a.aliasName = c.aliasName

/-- The draft with what is read off the list of results. -/
def Draft.resulting (d : Draft) (cs : List TableColumn) (calls : List SelectAggregate)
    (subs : List Subquery) (aliases : List String) : Draft :=
  { sources := d.sources
    aliases := d.aliases ++ aliases
    block := { d.block with
      tables := d.block.tables.map (picked cs)
      aggregates := d.block.aggregates ++ calls
      subqueries := d.block.subqueries ++ subs } }

theorem Draft.resulting_nil (d : Draft) : d.resulting [] [] [] [] = d := by
  obtain ⟨⟨⟩, sources, aliases⟩ := d
  simp only [Draft.resulting, List.append_nil, funext picked_nil, List.map_id']

theorem Draft.SameNames.resulting (d : Draft) (cs : List TableColumn)
    (calls : List SelectAggregate) {subs : List Subquery} (aliases : List String)
    (hrole : ∀ sub ∈ subs, sub.role = .selectList) :
    d.SameNames (d.resulting cs calls subs aliases) := by
  refine ⟨rfl, ?_, ?_⟩
  · show (d.block.tables.map (picked cs)).map Table.unchosen = _
    rw [List.map_map]
    exact List.map_congr_left fun u _ => unchosen_picked cs u
  · have hnone : subs.filter (·.role = .fromClause) = [] :=
      List.filter_eq_nil_iff.2 fun sub hsub => by simp [hrole sub hsub]
    show (d.block.subqueries ++ subs).filter _ = _
    rw [List.filter_append, hnone, List.append_nil]
    rfl

theorem filterMap_cons_toList {α β : Type} (f : α → Option β) (a : α) (l : List α) :
    (a :: l).filterMap f = (f a).toList ++ l.filterMap f := by
  cases h : f a <;> simp [h]

section Results

variable (h₀ : d₀.Entered s lo m) (hs : s.Lower)
include h₀ hs

/-- A single result can be read. -/
theorem goes_writtenResult {r : WrittenResult ν} (hr : r.Plain)
    (hcolumn : ∀ c ∈ r.column?, ∃ u ∈ d₀.block.tables, u.name = c.table)
    (hread : ∀ q ∈ r.scalar?, NestsAs s (p q.1).value (t q.1)) {cs : List TableColumn}
    {calls : List SelectAggregate} {subs : List Subquery} {aliases : List String}
    (hrole : ∀ sub ∈ subs, sub.role = .selectList) (n : Nat) :
    ∃ n₁ calls' subs' aliases', r.call?.toList.Forall₂ CallRead calls' ∧
      r.scalar?.toList.Forall₂ (SubqueryRead t .selectList) subs' ∧
      ∀ {rest n' d'}, Goes (readItems s rest) n₁ (d₀.resulting (cs ++ r.column?.toList)
          (calls ++ calls') (subs ++ subs') (aliases ++ aliases')) () n' d' →
        Goes (readItems s ((r.part p).value :: rest)) n (d₀.resulting cs calls subs aliases) ()
          n' d' := by
  have hsame := Draft.SameNames.resulting d₀ cs calls aliases hrole
  cases r with
  | column c =>
    obtain ⟨u, hu, hname⟩ := hcolumn c rfl
    refine ⟨n, [], [], [], .nil, .nil, fun {rest n' d'} hrest => ?_⟩
    refine goes_readItems_expr.2 ⟨n, _, ?_, hrest⟩
    have howner : selectionOwner ⟨some c.table, c.column⟩ (d₀.resulting cs calls subs aliases) =
        .ok u.id := by
      rw [hsame.selectionOwner, selectionOwner, ← hname]
      simp only [h₀.source? hu]
      rfl
    have hdeclared : (d₀.resulting cs calls subs aliases).declared u.id c.column = c.column :=
      (hsame.declared _ _).trans (h₀.declared hs hu hr.column.lower)
    have hpicked := updateTable_picked h₀.ids.nodup h₀.names hu hname cs
    show Goes (readColumn c.part.value none) _ _ _ _ _
    rw [readColumn]
    simp only [columnName?_part, Option.isSome_none, Bool.false_eq_true, if_false,
      Goes.bind_iff, Goes.ask_iff, Goes.get_iff, Goes.edit_iff]
    refine ⟨u.id, _, _, ⟨howner, rfl, rfl⟩, _, _, _, ⟨rfl, rfl, rfl⟩, rfl, ?_⟩
    rw [hdeclared]
    simp only [Draft.resulting, Block.updateTable, hpicked, WrittenResult.column?,
      Option.toList_some, List.append_nil]
  | call a =>
    have haggregate := hsame.aggregate_plain h₀ hs a.function hr.1
    refine ⟨n + 1, [⟨EntityId.minted n, a.function, a.argument.text, a.aliasName⟩], [],
      a.aliasName.toList, .cons ⟨rfl, rfl, rfl⟩ .nil, .nil, fun {rest n' d'} hrest => ?_⟩
    refine goes_readItems_expr.2 ⟨n + 1, _, ?_, hrest⟩
    show Goes (readAggregate _ _ _ _) _ _ _ _ _
    simp only [readAggregate, noteAlias, Goes.bind_iff, Goes.ask_iff]
    refine ⟨_, _, _, ⟨haggregate, rfl, rfl⟩, ?_⟩
    simp only [Goes.bind_iff, Goes.modify_iff, Goes.mint_iff, Goes.edit_iff]
    refine ⟨(), _, _, ⟨rfl, rfl⟩, _, _, _, ⟨rfl, rfl, rfl⟩, rfl, ?_⟩
    cases a.aliasName <;>
      simp [Draft.resulting, Block.addAggregate, WrittenResult.column?, Name.bare]
  | scalar q aliasName =>
    obtain ⟨b, n₁, hgives, htext⟩ := hread (q, aliasName) rfl n
    refine ⟨n₁ + 1, [], [nestedAt n₁ .selectList aliasName b], aliasName.toList, .nil,
      .cons ⟨rfl, rfl, htext⟩ .nil, fun {rest n' d'} hrest => ?_⟩
    refine goes_readItems_expr.2 ⟨n₁ + 1, _, ?_, hrest⟩
    show Goes (readItem s (.subquery (p q).value) _) _ _ _ _ _
    simp only [readItem, noteAlias, Goes.bind_iff, Goes.lift_iff, Goes.modify_iff, Goes.mint_iff,
      Goes.edit_iff]
    refine ⟨b, n₁, _, ⟨hgives, rfl⟩, _, _, _, ⟨rfl, rfl, rfl⟩, (), _, _, ⟨rfl, rfl⟩, rfl, ?_⟩
    cases aliasName <;> simp [Draft.resulting, WrittenResult.column?, nestedAt, Name.bare]

/-- All results can be read. -/
theorem goes_results {rs : List (WrittenResult ν)} (hrs : ∀ r ∈ rs, r.Plain)
    (hcolumns : ∀ r ∈ rs, ∀ c ∈ r.column?, ∃ u ∈ d₀.block.tables, u.name = c.table)
    (hread : ∀ r ∈ rs, ∀ q ∈ r.scalar?, NestsAs s (p q.1).value (t q.1)) :
    ∀ cs calls {subs aliases} (_ : ∀ sub ∈ subs, sub.role = .selectList) (n : Nat),
      ∃ n' calls' subs' aliases', (rs.filterMap (·.call?)).Forall₂ CallRead calls' ∧
        (rs.filterMap (·.scalar?)).Forall₂ (SubqueryRead t .selectList) subs' ∧
        Goes (readItems s (rs.map fun r => (r.part p).value)) n
          (d₀.resulting cs calls subs aliases) () n'
          (d₀.resulting (cs ++ rs.filterMap (·.column?)) (calls ++ calls') (subs ++ subs')
            (aliases ++ aliases')) := by
  induction rs with
  | nil =>
    intro cs calls subs aliases _ n
    refine ⟨n, [], [], [], .nil, .nil, Goes.pure_iff.2 ⟨rfl, rfl, ?_⟩⟩
    simp only [List.filterMap_nil, List.append_nil]
  | cons r rs ih =>
    intro cs calls subs aliases hrole n
    obtain ⟨hr, hrs⟩ := List.forall_mem_cons.1 hrs
    obtain ⟨hcolumn, hcolumns⟩ := List.forall_mem_cons.1 hcolumns
    obtain ⟨hscalar, hread⟩ := List.forall_mem_cons.1 hread
    obtain ⟨n₁, calls₁, subs₁, aliases₁, hcalls₁, hsubs₁, hfirst⟩ :=
      goes_writtenResult h₀ hs hr hcolumn hscalar hrole n
    obtain ⟨n', calls', subs', aliases', hcalls', hsubs', hrest⟩ :=
      ih hrs hcolumns hread (cs ++ r.column?.toList) (calls ++ calls₁)
        (fun sub hsub => by
          rcases List.mem_append.1 hsub with hsub | hsub
          · exact hrole sub hsub
          · obtain ⟨q, -, hq⟩ := exists_of_mem_right hsubs₁ hsub
            exact hq.role) n₁
    rw [List.append_assoc, List.append_assoc, List.append_assoc, List.append_assoc] at hrest
    refine ⟨n', calls₁ ++ calls', subs₁ ++ subs', aliases₁ ++ aliases', ?_, ?_, ?_⟩
    · rw [filterMap_cons_toList]
      exact List.rel_append hcalls₁ hcalls'
    · rw [filterMap_cons_toList]
      exact List.rel_append hsubs₁ hsubs'
    · rw [filterMap_cons_toList]
      exact hfirst hrest

end Results

end QueryCanvas.Sql
