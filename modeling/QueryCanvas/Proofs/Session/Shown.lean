import QueryCanvas.Proofs.CarryOver.Shown
import QueryCanvas.Proofs.Session.Identifiers
import QueryCanvas.Proofs.Session.References
import QueryCanvas.Proofs.Session.Turns

/-!
# What is shown of named queries in the course of a session

A table that reads a named query has the results of the named query as its columns.  These are
written into it when it is made, and again when the named query is edited as the block of the
pointer.  Whatever else changes the results of a named query leaves the tables that read it behind.
Here it is said exactly which requests keep up.
-/

set_option autoImplicit false

namespace QueryCanvas

open Sql

/-- The named query of a pointer, if it leads to one. -/
def Focus.cte? : Focus → Option EntityId
  | .cte id => some id
  | _ => none

/-- A table that is read shows the results of the named query in the scope that it reads. -/
theorem Sql.Scope.Reaches.shown {s : Scope} {lo n : Nat} {b : Block} (h : s.Reaches lo n b) :
    b.Everywhere (Block.Linked fun id columns =>
      ∃ q ∈ s.ctes, q.id = id ∧ q.block.outputColumns = columns) := by
  induction h with
  | empty n => exact Block.everywhere_linked_empty
  | @table lo n b h t hbox hnew ih =>
    refine ih.change ((Block.everywhere_iff.1 ih).1.addTable ?_) rfl
    cases hbox with
    | table name => exact nofun
    | cte hq =>
      rintro _ ⟨⟩
      exact ⟨_, hq, rfl, rfl⟩
  | @join lo n b h j hid ih =>
    have hsubs : (b.addJoin j).subqueries = b.subqueries := by
      unfold Block.addJoin
      split <;> rfl
    exact ih.change ((Block.everywhere_iff.1 ih).1.addJoin j) hsubs
  | @choose lo n b h id columns ih =>
    refine ih.change ((Block.everywhere_iff.1 ih).1.updateTable id fun t => ?_) rfl
    obtain ⟨selected, heq⟩ := exists_foldl_select columns t
    rw [heq]
    exact ⟨rfl, rfl⟩
  | @nest lo n m b h q hinner hid hrole hlink ih ihinner =>
    exact ih.push ihinner ((Block.everywhere_iff.1 ih).1.same rfl) rfl
  | @compare lo n m b h q hinner f hfilter hid hrole hoperand hlink ih ihinner =>
    exact ih.push ihinner ((Block.everywhere_iff.1 ih).1.same rfl) rfl
  | filter | limit | aggregate | grouping | having | sortTerm =>
    rename_i ih
    exact ih.change ((Block.everywhere_iff.1 ih).1.same rfl) rfl

namespace Reader

variable {r : Reader} {n m : Nat} {c next : Canvas} {focus : Focus} {text : String}

/-! ## Blocks that take over -/

/-- What can be read from the own block of a named query is another one. -/
theorem ne_of_mem_scope {id p : EntityId} (h : id ∈ (c.scope (.cte p)).map (·.id)) : id ≠ p := by
  obtain ⟨q, hq, rfl⟩ := List.mem_map.1 h
  have hbefore : q ∈ c.ctes.takeWhile (·.id ≠ p) := hq
  simpa using List.mem_takeWhile_imp hbefore

/-- The tables of a block that is read show the results that the named queries have. -/
theorem shown_of_reads {b : Block} {n' : Nat} (hids : c.cteIds.Nodup)
    (hreached : Scope.Reaches { catalog := r.catalog, ctes := c.scope focus } n n' b) :
    b.Everywhere (Block.Linked fun id columns => c.results? id = some columns) := by
  refine hreached.shown.imp fun d hd => hd.imp ?_
  rintro _ _ ⟨q, hq, rfl, rfl⟩
  exact Canvas.results?_of_mem hids (scope_subset c focus hq)

/-- After they took over, the tables show the same, but for those that read a named query without
results. -/
theorem shown_or_nil {b : Block} (old : Block) {n' : Nat} {ids : List EntityId}
    (hdrawn : b.Everywhere (Block.Drawn n n' ids))
    (hread : b.Everywhere (Block.Linked fun id columns => c.results? id = some columns)) :
    (old.carryOver b).Everywhere (Block.Linked fun id columns =>
      c.results? id = some columns ∨ c.results? id = some []) := by
  have hboth : b.Everywhere fun d =>
      d.Drawn n n' ids ∧ d.Linked fun id columns => c.results? id = some columns :=
    fun d hd => ⟨hdrawn d hd, hread d hd⟩
  refine Block.everywhere_carryOver (Q := fun _ => True) (fun d hd => ?_) (fun d old hd _ => ?_)
    b old hboth fun _ _ => trivial
  · exact hd.2.imp fun _ _ hshown => .inl hshown
  · rw [Block.linked_carryOver_iff hd.1]
    intro t ht id hlink
    have hshown := hd.2 t ht id hlink
    unfold Block.carryTable
    split
    · exact .inl hshown
    · dsimp only
      split
      · rename_i hempty
        rw [List.isEmpty_iff.1 hempty] at hshown
        exact .inr hshown
      · exact .inl hshown

/-- Another block in the place of a named query does not read that named query. -/
theorem outward_updateBlock {b : Block} (h : c.Outward)
    (hlinks : b.Everywhere fun d => ∀ t ∈ d.tables, ∀ id, t.cte = some id →
      id ∈ (c.scope focus).map (·.id)) : (c.updateBlock focus fun _ => b).Outward := by
  refine h.updateBlock ?_
  rintro p rfl _ _ t ht id hlink
  exact ne_of_mem_scope (hlinks b (Block.self_mem_blocks b) t ht id hlink)

/-- No own block of a named query reads it on a canvas that takes over a text. -/
theorem Takes.outward (h : r.Takes c text n m focus next) (hnumbered : c.Numbered n)
    (houtward : c.Outward) : next.Outward := by
  have hids := (h.numbered hnumbered).cteIds.nodup
  cases h with
  | @root parsed n' hrun hm =>
    have hacyclic := Canvas.acyclic_carryOver ((r.reads_reached text n).result _ _ hrun) hids
    rintro q hq t ht _ hlink rfl
    exact hacyclic q.id (.single ⟨q, hq, rfl, _, Block.self_mem_blocks _, t, ht, hlink⟩)
  | @nested _ old parsed n' hfocus hold hrun hm =>
    have hdrawn := (r.reads_block c focus text n).result _ _ hrun
    have hupdated := outward_updateBlock houtward (Block.links_carryOver parsed old hdrawn)
    exact replaceBlock_induction hupdated fun id hd => hd.refreshCteColumns id

/-- With another block in place, what had no results and can be read there has none. -/
theorem results?_replaceBlock_nil (hfocus : focus ≠ .root) {b : Block} {id : EntityId}
    (hid : id ∈ (c.scope focus).map (·.id)) (h : c.results? id = some []) :
    (replaceBlock c focus b).results? id = some [] := by
  cases focus with
  | root => exact absurd rfl hfocus
  | cte p =>
    refine Canvas.results?_refreshCteColumns_nil p ?_
    rw [Canvas.results?_updateBlock_of_ne (ne_of_mem_scope hid)]
    exact h
  | subquery i =>
    show (c.updateBlock (.subquery i) fun _ => b).results? id = some []
    rw [Canvas.results?_updateBlock (by rintro p ⟨⟩)]
    exact h

variable (r) in
/-- Where the text is taken over, the tables that it draws show the results of the named queries
that they read, and the other tables need not change: but for a named query in whose place the text
stands, those that tables read keep their results. -/
inductive KeepsUp (c : Canvas) (text : String) (n : Nat) : Focus → Canvas → Prop
  | root {parsed next : Canvas} {n' : Nat} (hrun : (r.canvas text).run n = (.ok parsed, n'))
      (hshows : c.Shows parsed) : KeepsUp c text n .root next
  | nested {focus : Focus} {old parsed : Block} {next : Canvas} {n' : Nat} (hfocus : focus ≠ .root)
      (hold : c.block? focus = some old) (hrun : (r.block c focus text).run n = (.ok parsed, n'))
      (hshows : old.Shows (fun id columns => c.results? id = some columns) parsed)
      (hkeeps : c.KeepsResults next focus.cte?) : KeepsUp c text n focus next

/-- Another block in the place of a pointer shows the results from before on a canvas that is
current afterwards, if it did so but for named queries without results. -/
theorem shown_of_current {old b : Block} (hfocus : focus ≠ .root)
    (hold : c.block? focus = some old)
    (hlinks : b.Everywhere fun d => ∀ t ∈ d.tables, ∀ id, t.cte = some id →
      id ∈ (c.scope focus).map (·.id))
    (hshown : b.Everywhere (Block.Linked fun id columns =>
      c.results? id = some columns ∨ c.results? id = some []))
    (hcurrent : (replaceBlock c focus b).Current) :
    b.Everywhere (Block.Linked fun id columns => c.results? id = some columns) := by
  have hafter : b.Everywhere (Block.Linked fun id columns =>
      (replaceBlock c focus b).results? id = some columns) :=
    Canvas.Everywhere.block? ⟨hcurrent.root, hcurrent.ctes⟩ (block?_replaceBlock hold hlinks)
  intro d hd t ht id hlink
  rcases hshown d hd t ht id hlink with hbefore | hnil
  · exact hbefore
  · have hnone := results?_replaceBlock_nil (b := b) hfocus (hlinks d hd t ht id hlink) hnil
    have hcolumns := (hafter d hd t ht id hlink).symm.trans hnone
    rw [Option.some.inj hcolumns]
    exact hnil

/-- With another block in the place of a pointer that shows the results from before, the tables show
these, and the results from afterwards of the named query in whose place it stands. -/
theorem linked_replaceBlock {old b : Block} (hfocus : focus ≠ .root)
    (hold : c.block? focus = some old) (hcurrent : c.Current) (houtward : c.Outward)
    (hlinks : b.Everywhere fun d => ∀ t ∈ d.tables, ∀ id, t.cte = some id →
      id ∈ (c.scope focus).map (·.id))
    (hshown : b.Everywhere (Block.Linked fun id columns => c.results? id = some columns)) :
    (replaceBlock c focus b).Linked fun _ id columns =>
      if focus.cte? = some id then (replaceBlock c focus b).results? id = some columns
      else c.results? id = some columns := by
  have hupdated : (c.updateBlock focus fun _ => b).Linked fun _ id columns =>
      c.results? id = some columns := hcurrent.updateBlock focus fun _ _ => hshown
  cases focus with
  | root => exact absurd rfl hfocus
  | cte p =>
    refine Canvas.linked_refreshed hupdated (outward_updateBlock houtward hlinks) ?_
    rw [Canvas.results?_eq_block?, Canvas.block?_updateBlock, hold]
    rfl
  | subquery i => exact hupdated

/-- Where a text is taken over, the canvas is current afterwards exactly if the text keeps up. -/
theorem Takes.current_iff (h : r.Takes c text n m focus next) (hnumbered : c.Numbered n)
    (houtward : c.Outward) (hcurrent : c.Current) :
    next.Current ↔ r.KeepsUp c text n focus next := by
  have hids := (h.numbered hnumbered).cteIds.nodup
  cases h with
  | @root parsed n' hrun hm =>
    rw [Canvas.current_carryOver_iff ((r.reads_reached text n).result _ _ hrun) hids]
    refine ⟨.root hrun, ?_⟩
    rintro (⟨hrun', hshows⟩ | hfocus)
    · cases hrun.symm.trans hrun'
      exact hshows
    · exact absurd rfl hfocus
  | @nested _ old parsed n' hfocus hold hrun hm =>
    have hreached := (r.reads_reaching c focus text n).result _ _ hrun
    have hlinks := Block.links_carryOver parsed old hreached.drawn
    have hread := shown_of_reads hnumbered.cteIds.nodup hreached
    have hshows := Block.everywhere_linked_carryOver_iff
      (A := fun id columns => c.results? id = some columns) parsed old hreached.drawn
    constructor
    · intro hafter
      have hshown := shown_of_current hfocus hold hlinks (shown_or_nil old hreached.drawn hread)
        hafter
      refine .nested hfocus hold hrun (hshows.1 hshown) ?_
      exact (Canvas.current_iff
        (linked_replaceBlock hfocus hold hcurrent houtward hlinks hshown)).1 hafter
    · rintro (_ | ⟨_, hold', hrun', hshown, hkeeps⟩)
      · exact absurd rfl hfocus
      · cases hold.symm.trans hold'
        cases hrun.symm.trans hrun'
        exact (Canvas.current_iff (linked_replaceBlock hfocus hold hcurrent houtward hlinks
          (hshows.2 hshown))).2 hkeeps

end Reader

namespace Session

variable {s : Session} {n m : Nat} {request : Request} {c : Canvas}

/-! ## Requests -/

/-- The tables show the results of the named queries that they read also after the request: where a
named query is edited, and where a named query or a nested query is removed, the named queries that
are read then keep their results, and a text that is taken over keeps up. -/
def KeepsUp (s : Session) (n : Nat) : Request → Prop
  | .edit edit => ∀ p, s.focus = .cte p →
    s.canvas.KeepsResults (s.editActive (EntityId.minted n) edit) (some p)
  | .removeCte id => s.canvas.KeepsResults (s.canvas.removeCte id) none
  | .removeSubquery id => s.canvas.KeepsResults ((s.canvas.removeSubquery? id).getD s.canvas) none
  | .type text => ∀ next, s.taken? n (.type text) = some next →
    s.reader.KeepsUp s.canvas text n s.focus next
  | _ => True

/-- An edit of a block that is not there leaves the canvas alone. -/
theorem editActive_of_none (h : s.canvas.block? s.focus = none) (new : EntityId)
    (edit : BlockEdit) : s.editActive new edit = s.canvas := by
  unfold editActive
  rw [Canvas.updateBlock_of_none h]
  dsimp only
  split
  · rename_i p hfocus
    rw [hfocus] at h
    unfold Canvas.refreshCteColumns
    rw [Option.map_eq_none_iff.1 h]
  · rfl

/-- After an edit of the block that is being edited, the tables show the results of the named
queries that they read exactly if those that are not edited keep theirs. -/
theorem current_editActive_iff {b : Block} (hblock : s.canvas.block? s.focus = some b)
    (houtward : s.canvas.Outward) (hcurrent : s.canvas.Current) (edit : BlockEdit) :
    (s.editActive (EntityId.minted n) edit).Current ↔ s.KeepsUp n (.edit edit) := by
  have hedited := hcurrent.inBlock s.focus (EntityId.minted n) edit
  by_cases hcte : ∃ p, s.focus = .cte p
  · obtain ⟨p, hfocus⟩ := hcte
    rw [hfocus] at hblock hedited
    have hdrawn := houtward.edit (EntityId.minted n) (.inBlock (.cte p) edit)
    have hthere : (((CanvasEdit.inBlock (.cte p) edit).apply (EntityId.minted n)
        s.canvas).results? p).isSome := by
      rw [Canvas.results?_eq_block?, CanvasEdit.apply, Canvas.block?_updateBlock, hblock]
      rfl
    have hiff := Canvas.current_iff (Canvas.linked_refreshed hedited hdrawn hthere)
    rw [← editActive_cte hfocus] at hiff
    rw [hiff]
    refine ⟨fun hkeeps p' hfocus' => ?_, fun hkeeps => hkeeps p hfocus⟩
    cases hfocus.symm.trans hfocus'
    exact hkeeps
  · have hother : ∀ p, s.focus ≠ .cte p := fun p hfocus => hcte ⟨p, hfocus⟩
    have hsame : ((CanvasEdit.inBlock s.focus edit).apply (EntityId.minted n) s.canvas).results? =
        s.canvas.results? := Canvas.results?_updateBlock fun p hfocus => absurd hfocus (hother p)
    rw [editActive_of_ne hother, Canvas.current_iff_of_linked hedited]
    exact iff_of_true (.of_eq hsame none) fun p hfocus => absurd hfocus (hother p)

/-- A new named query is read by no table. -/
theorem keepsResults_addCte (hnumbered : s.canvas.Numbered n) (hanchored : s.canvas.Anchored n)
    (name : String) (frame : Frame) :
    s.canvas.KeepsResults (s.canvas.addCte (EntityId.minted n) name frame) none := by
  have hbefore : s.canvas.Linked fun _ id _ => id ∈ s.canvas.cteIds :=
    ⟨hanchored.1.imp fun _ hb => hb.links, fun q hq => (hanchored.2 q hq).imp fun _ hb => hb.links⟩
  have hlinks := hbefore.addCte (EntityId.minted n) name frame
  rintro id ⟨b, hb, t, ht, hlink⟩ -
  refine Canvas.results?_addCte ?_ name frame
  rintro rfl
  have hknown := Canvas.linked_iff.1 hlinks b hb t ht _ hlink
  exact (hnumbered.cteIds.between _ hknown).ne (EntityId.between_minted (Nat.le_refl n)) rfl

/-- A request leaves a canvas on which the tables show the results of the named queries that they
read exactly if it keeps up. -/
theorem Redraws.current_iff (h : s.Redraws n m request c) (hnumbered : s.canvas.Numbered n)
    (hanchored : s.canvas.Anchored n) (houtward : s.canvas.Outward)
    (hcurrent : s.canvas.Current) : c.Current ↔ s.KeepsUp n request := by
  cases h with
  | kept hdrawing hedit htaken =>
    refine iff_of_true hcurrent ?_
    cases request with
    | edit edit =>
      intro p _
      rw [editActive_of_none (hedit edit rfl)]
      exact .of_eq rfl _
    | type text =>
      intro next hnext
      cases htaken.symm.trans hnext
    | removeCte id => cases hdrawing
    | removeSubquery id => cases hdrawing
    | _ => trivial
  | edited _ hblock => exact current_editActive_iff hblock houtward hcurrent _
  | drawn _ hedit =>
    cases request with
    | reference cte position =>
      cases hedit
      have hlinked : (s.canvas.addCteReference s.focus cte (EntityId.minted n) position).Linked
          fun _ id columns => s.canvas.results? id = some columns :=
        Canvas.Linked.addCteReference hcurrent (fun _ _ hcolumns => hcolumns) _ position
      rw [CanvasEdit.apply, Canvas.current_iff_of_linked hlinked]
      exact iff_of_true (.of_eq (Canvas.results?_addCteReference _ _ _ _ _) none) trivial
    | addCte name frame =>
      cases hedit
      have hlinked := Canvas.Linked.addCte hcurrent (EntityId.minted n) name frame
      rw [CanvasEdit.apply, Canvas.current_iff_of_linked hlinked]
      exact iff_of_true (keepsResults_addCte hnumbered hanchored name frame) trivial
    | renameCte id name =>
      cases hedit
      have hlinked := Canvas.Linked.renameCte hcurrent id name
      rw [CanvasEdit.apply, Canvas.current_iff_of_linked hlinked]
      exact iff_of_true (.of_eq (Canvas.results?_renameCte _ id name) none) trivial
    | removeCte id =>
      cases hedit
      exact Canvas.current_iff_of_linked (Canvas.Linked.removeCte hcurrent id)
    | removeSubquery id =>
      cases hedit
      exact Canvas.current_iff_of_linked (Canvas.Linked.removeSubquery hcurrent id)
    | _ => cases hedit
  | taken htaken htakes =>
    rw [htakes.current_iff hnumbered houtward hcurrent]
    refine ⟨fun hkeeps next hnext => ?_, fun hkeeps => hkeeps _ htaken⟩
    cases htaken.symm.trans hnext
    exact hkeeps

theorem Leaves.outward (h : s.Leaves n m request c) (hnumbered : s.canvas.Numbered n)
    (houtward : s.canvas.Outward) : c.Outward := by
  cases h with
  | kept _ => exact houtward
  | edited _ _ edit => exact houtward.edit _ edit
  | refreshed _ _ edit cte => exact (houtward.edit _ edit).refreshCteColumns cte
  | taken _ htakes => exact htakes.outward hnumbered houtward

/-! ## Whole sessions -/

/-- Whatever was asked of a session since its start, short of putting another canvas in place: no
table in the own block of a named query reads it. -/
theorem outward_runAll (settings : Settings) (catalog : Catalog) {requests : List Request}
    (hkeeps : ∀ r ∈ requests, r.KeepsCanvas) (n : Nat) :
    ((start settings catalog).runAll requests n).1.canvas.Outward := by
  have hstart : (start settings catalog).canvas.Outward :=
    fun _ hq => absurd hq List.not_mem_nil
  have hrun := yields_runAll (I := fun n c => c.Numbered n ∧ c.Outward)
    (fun hleaves hm h => ⟨hleaves.numbered hm h.1, hleaves.outward h.1 h.2⟩) requests hkeeps
    (start settings catalog) n ⟨Canvas.numbered_empty, hstart⟩
  exact hrun.result.2

theorem anchored_runAll (settings : Settings) (catalog : Catalog) {requests : List Request}
    (hkeeps : ∀ r ∈ requests, r.KeepsCanvas) (n : Nat) :
    ((start settings catalog).runAll requests n).1.canvas.Anchored
      ((start settings catalog).runAll requests n).2 :=
  (yields_runAll Leaves.anchored requests hkeeps (start settings catalog) n
    Canvas.anchored_empty).result

end Session

/-- Every table that is linked to a named query of the canvas declares the result columns of that
named query, in their order. -/
def Canvas.ShowsResults (c : Canvas) : Prop :=
  ∀ b ∈ c.blocks, ∀ t ∈ b.tables, ∀ q ∈ c.ctes, t.cte = some q.id →
    t.columns = q.block.outputColumns

theorem Canvas.current_iff_showsResults {c : Canvas} {n : Nat} (hnumbered : c.Numbered n)
    (hanchored : c.Anchored n) : c.Current ↔ c.ShowsResults := by
  have hids := hnumbered.cteIds.nodup
  have hlinks := everywhere_iff_blocks.1 hanchored
  unfold Current
  rw [linked_iff]
  refine forall₂_congr fun b hb => forall₂_congr fun t ht => ?_
  refine ⟨fun h q hq hlink => ?_, fun h id hlink => ?_⟩
  · have hresults := h q.id hlink
    rw [results?_of_mem hids hq] at hresults
    exact (Option.some.inj hresults).symm
  · obtain ⟨q, hq, rfl⟩ := List.mem_map.1 ((hlinks b hb).links t ht id hlink)
    rw [results?_of_mem hids hq, h q hq hlink]

namespace Session

/-- Whatever was asked of a session since its start, short of putting another canvas in place: at
all times every table that is linked to a named query declares its result columns exactly if every
request kept up.  Only four kinds of requests may fail to: an edit of a named query, by which
another one that is read gets other results; the removal of a named query or of a nested query, by
which one that is read does; and a text that is taken over. -/
theorem shows_results_iff_keeps_up (settings : Settings) (catalog : Catalog)
    (requests : List Request) (hkeeps : ∀ r ∈ requests, r.KeepsCanvas) (n : Nat) :
    (∀ before, before <+: requests →
        ((start settings catalog).runAll before n).1.canvas.ShowsResults) ↔
      ∀ before request, before ++ [request] <+: requests →
        ((start settings catalog).runAll before n).1.KeepsUp
          ((start settings catalog).runAll before n).2 request := by
  have hiff : ∀ before, before <+: requests →
      (((start settings catalog).runAll before n).1.canvas.Current ↔
        ((start settings catalog).runAll before n).1.canvas.ShowsResults) := by
    intro before hfront
    have hbefore : ∀ r ∈ before, r.KeepsCanvas := fun r hr => hkeeps r (hfront.subset hr)
    exact Canvas.current_iff_showsResults (numbered_runAll settings catalog hbefore n)
      (anchored_runAll settings catalog hbefore n)
  rw [← forall₂_congr hiff]
  refine always_iff (P := Canvas.Current) (D := KeepsUp) hkeeps ?_ ?_
  · intro before request m c hbefore hredraws hcurrent
    exact hredraws.current_iff (numbered_runAll settings catalog hbefore n)
      (anchored_runAll settings catalog hbefore n) (outward_runAll settings catalog hbefore n)
      hcurrent
  · exact Canvas.linked_iff.2 fun b hb t ht => by
      rw [List.mem_singleton.1 hb] at ht
      exact absurd ht List.not_mem_nil

/-- A named query gets a result from a nested query and is read below the root, and then the nested
query is removed. -/
def leftBehind : List Request :=
  [.addCte "a" default, .setFocus (.cte (EntityId.minted 0)),
   .edit (.addSubquery .selectList none default),
   .edit (.setSubqueryAlias (EntityId.minted 1) (some "n")), .setFocus .root,
   .reference (EntityId.minted 0) default, .removeSubquery (EntityId.minted 1)]

theorem keepsCanvas_leftBehind : ∀ r ∈ leftBehind, r.KeepsCanvas := by
  simp [leftBehind, Request.KeepsCanvas]

/-- The table still declares the column that the named query has no more. -/
theorem table_left_behind : (∀ r ∈ leftBehind, r.KeepsCanvas) ∧
    ∃ b ∈ ((start default .empty).runAll leftBehind 0).1.canvas.blocks, ∃ t ∈ b.tables,
      ∃ q ∈ ((start default .empty).runAll leftBehind 0).1.canvas.ctes,
        t.cte = some q.id ∧ t.columns = ["n"] ∧ q.block.outputColumns = [] := by
  refine ⟨keepsCanvas_leftBehind, ?_⟩
  decide +kernel

/-- The last request of this session does not keep up. -/
theorem shows_results_iff_leftBehind : (∀ r ∈ leftBehind, r.KeepsCanvas) ∧
    ((∀ before, before <+: leftBehind →
        ((start default .empty).runAll before 0).1.canvas.ShowsResults) ↔
      ∀ before request, before ++ [request] <+: leftBehind →
        ((start default .empty).runAll before 0).1.KeepsUp
          ((start default .empty).runAll before 0).2 request) :=
  ⟨keepsCanvas_leftBehind,
    shows_results_iff_keeps_up default .empty leftBehind keepsCanvas_leftBehind 0⟩

end Session

end QueryCanvas
