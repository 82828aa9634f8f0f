import QueryCanvas.Proofs.Canvas.WellFormed
import QueryCanvas.Proofs.Reading.Goes
import QueryCanvas.Proofs.Reading.Numbered

/-!
# What is read is in good order

A canvas that is read off a query is in good order, whatever the query says and whichever tables
are known.  So the diagnosis of such a canvas finds an error only where a named query was given a
blank name.
-/

set_option autoImplicit false

namespace QueryCanvas

/-- What of the good order of a block shows without looking at identifiers. -/
structure Block.Orderly (ctes : List Cte) (b : Block) : Prop where
  answered : ∀ s ∈ b.subqueriesIn .whereClause, ∃ f ∈ b.filters, s.Answers f
  served : ∀ f ∈ b.filters, f.operand.subquery?.isSome →
    ∃ s ∈ b.subqueriesIn .whereClause, s.Answers f
  selected : ∀ t ∈ b.tables, t.selected.Nodup
  limit : ∀ text, b.limit = some (.parameter text) → Parameter.isParameter text
  links : ∀ t ∈ b.tables, ∀ id, t.cte = some id → ∃ q ∈ ctes, q.id = id ∧ q.name = t.name

namespace Block.Orderly

variable {ctes : List Cte} {b : Block}

theorem empty : Block.empty.Orderly ctes := by
  constructor <;> simp [Block.empty, Block.subqueriesIn]

theorem subqueriesIn_push {b' : Block} {q : Subquery} (hsubs : b'.subqueries = b.subqueries ++ [q])
    (role : SubqueryRole) :
    b'.subqueriesIn role = b.subqueriesIn role ++ if q.role = role then [q] else [] := by
  by_cases hrole : q.role = role <;> simp [subqueriesIn, hsubs, hrole]

/-- A block with distinct identifiers that is orderly is in good order, if it is well drawn too. -/
theorem wellFormed {lo hi : Nat} (h : b.Orderly ctes) (hdrawn : b.Drawn lo hi (ctes.map (·.id)))
    (hapart : b.Apart lo hi) : b.WellFormed ctes := by
  refine ⟨hdrawn.names, fun j hj => hdrawn.toAnchored.tables_of_join hj, fun s hs => ?_,
    fun f hf hlink => ?_, h.selected, hdrawn.plain, h.limit, h.links⟩
  · obtain ⟨f, hf, hanswers⟩ := h.answered s hs
    refine ⟨f, ⟨hf, hanswers⟩, fun g ⟨hg, hanswers'⟩ => ?_⟩
    have hid := Option.some.inj (hanswers'.1.symm.trans hanswers.1)
    exact List.inj_on_of_nodup_map hapart.1.filters.nodup hg hf hid
  · obtain ⟨s, hs, hanswers⟩ := h.served f hf hlink
    refine ⟨s, ⟨hs, hanswers⟩, fun r ⟨hr, hanswers'⟩ => ?_⟩
    have hid := Operand.subquery.inj (hanswers'.2.symm.trans hanswers.2)
    exact List.inj_on_of_nodup_map hdrawn.nestedIds.nodup (List.mem_filter.1 hr).1
      (List.mem_filter.1 hs).1 hid

end Block.Orderly

theorem Table.nodup_select {t : Table} (h : t.selected.Nodup) (column : String) :
    (t.select column).selected.Nodup := by
  unfold Table.select
  split
  · exact h
  · rename_i hnew
    have hnot : column ∉ t.selected := by simpa [Table.isSelected] using hnew
    refine List.nodup_append.2 ⟨h, List.nodup_singleton column, fun a ha b hb heq => hnot ?_⟩
    rwa [← List.mem_singleton.1 hb, ← heq]

theorem Table.nodup_foldl_select (columns : List String) {t : Table} (h : t.selected.Nodup) :
    (columns.foldl Table.select t).selected.Nodup := by
  induction columns generalizing t with
  | nil => exact h
  | cons column rest ih => exact ih (Table.nodup_select h column)

namespace Sql

theorem Expr.isParameter_of_limit {e : Expr} {text : String}
    (h : e.limit = .ok (.parameter text)) : Parameter.isParameter text := by
  unfold Expr.limit at h
  split at h
  · dsimp only at h
    split at h <;> cases h
  · split at h
    · rename_i hparameter
      cases h
      exact hparameter
    · cases h
  · cases h

variable {s : Scope}

/-! ## Blocks -/

/-- A block that reading can come to is orderly, with all that is nested in it. -/
theorem Scope.Reaches.orderly {lo n : Nat} {b : Block} (h : s.Reaches lo n b) :
    b.Everywhere (Block.Orderly s.ctes) := by
  induction h with
  | empty n => exact Block.everywhere_iff.2 ⟨Block.Orderly.empty, by simp [Block.empty]⟩
  | @table lo n b h t hbox hnew ih =>
    have hself := (Block.everywhere_iff.1 ih).1
    refine ih.change { hself with selected := fun u hu => ?_, links := fun u hu id hid => ?_ } rfl
    · rcases List.mem_append.1 hu with hu | hu
      · exact hself.selected u hu
      · rw [List.mem_singleton.1 hu]
        cases hbox <;> exact List.nodup_nil
    · rcases List.mem_append.1 hu with hu | hu
      · exact hself.links u hu id hid
      · obtain rfl := List.mem_singleton.1 hu
        cases hbox with
        | table name => cases hid
        | cte hq =>
          cases hid
          exact ⟨_, hq, rfl, rfl⟩
  | @join lo n b h j hid ih =>
    have hself := (Block.everywhere_iff.1 ih).1
    unfold Block.addJoin
    split
    · exact ih.change { hself with } rfl
    · exact ih
  | @choose lo n b h id columns ih =>
    have hself := (Block.everywhere_iff.1 ih).1
    refine ih.change { hself with selected := fun t ht => ?_, links := fun t ht => ?_ } rfl
    · rcases mem_updateFirst ht with ht | ⟨u, hu, -, rfl⟩
      · exact hself.selected t ht
      · exact Table.nodup_foldl_select columns (hself.selected u hu)
    · rcases mem_updateFirst ht with ht | ⟨u, hu, -, rfl⟩
      · exact hself.links t ht
      · obtain ⟨selected, heq⟩ := exists_foldl_select columns u
        rw [heq]
        exact hself.links u hu
  | @filter lo n b h f hid hvalue ih =>
    have hself := (Block.everywhere_iff.1 ih).1
    refine ih.change { hself with answered := fun s hs => ?_, served := fun g hg hlink => ?_ } rfl
    · obtain ⟨g, hg, hanswers⟩ := hself.answered s hs
      exact ⟨g, List.mem_append_left _ hg, hanswers⟩
    · rcases List.mem_append.1 hg with hg | hg
      · exact hself.served g hg hlink
      · rw [List.mem_singleton.1 hg, hvalue] at hlink
        cases hlink
  | @limit lo n b h e value hvalue ih =>
    have hself := (Block.everywhere_iff.1 ih).1
    refine ih.change { hself with limit := ?_ } rfl
    rintro text ⟨⟩
    exact Expr.isParameter_of_limit hvalue
  | @nest lo n m b h q hinner hid hrole hlink ih ihinner =>
    have hself := (Block.everywhere_iff.1 ih).1
    have hwhere : ∀ {b' : Block}, b'.subqueries = b.subqueries ++ [q] →
        b'.subqueriesIn .whereClause = b.subqueriesIn .whereClause := by
      intro b' hsubs
      rw [Block.Orderly.subqueriesIn_push hsubs, if_neg hrole, List.append_nil]
    refine ih.push ihinner
      { hself with answered := fun s hs => ?_, served := fun f hf hlink => ?_ } rfl
    · rw [hwhere rfl] at hs
      exact hself.answered s hs
    · rw [hwhere rfl]
      exact hself.served f hf hlink
  | @compare lo n m b h q hinner f hfilter hid hrole hoperand hlink ih ihinner =>
    have hself := (Block.everywhere_iff.1 ih).1
    have hwhere : ∀ {b' : Block}, b'.subqueries = b.subqueries ++ [q] →
        b'.subqueriesIn .whereClause = b.subqueriesIn .whereClause ++ [q] := by
      intro b' hsubs
      rw [Block.Orderly.subqueriesIn_push hsubs, if_pos hrole]
    refine ih.push ihinner
      { hself with answered := fun s hs => ?_, served := fun g hg hlinked => ?_ } rfl
    · rw [hwhere rfl] at hs
      rcases List.mem_append.1 hs with hs | hs
      · obtain ⟨g, hg, hanswers⟩ := hself.answered s hs
        exact ⟨g, List.mem_append_left _ hg, hanswers⟩
      · rw [List.mem_singleton.1 hs]
        exact ⟨f, List.mem_append_right _ (List.mem_singleton.2 rfl), hlink, hoperand⟩
    · rw [hwhere rfl]
      rcases List.mem_append.1 hg with hg | hg
      · obtain ⟨s, hs, hanswers⟩ := hself.served g hg hlinked
        exact ⟨s, List.mem_append_left _ hs, hanswers⟩
      · rw [List.mem_singleton.1 hg]
        exact ⟨q, List.mem_append_right _ (List.mem_singleton.2 rfl), hlink, hoperand⟩
  | aggregate | grouping | having | sortTerm =>
    rename_i ih
    exact ih.change { (Block.everywhere_iff.1 ih).1 with } rfl

theorem Scope.Reaches.wellFormed {lo n : Nat} {b : Block} (h : s.Reaches lo n b) :
    b.Everywhere (Block.WellFormed s.ctes) :=
  fun c hc => (h.orderly c hc).wellFormed (h.drawn c hc) (h.fresh.blocks c hc)

/-! ## Canvases -/

/-- A named query was read when those before it were known. -/
theorem CtesReached.block {catalog : Catalog} {lo n : Nat} {ctes : List Cte}
    (h : CtesReached catalog lo n ctes) {before after : List Cte} {q : Cte}
    (hsplit : ctes = before ++ q :: after) :
    ∃ n m, Scope.Reaches { catalog, ctes := before } n m q.block := by
  induction h generalizing after with
  | nil => simp at hsplit
  | @push n m known h r hnew hblock hid ih =>
    rcases List.eq_nil_or_concat after with rfl | ⟨rest, last, rfl⟩
    · obtain ⟨rfl, hlast⟩ := List.append_inj' hsplit rfl
      cases hlast
      exact ⟨n, m, hblock⟩
    · rw [List.concat_eq_append, ← List.cons_append, ← List.append_assoc] at hsplit
      exact ih (List.append_inj' hsplit rfl).1

theorem CanvasReached.wellFormed {catalog : Catalog} {lo n : Nat} {c : Canvas}
    (h : CanvasReached catalog lo n c) : c.WellFormed := by
  have hids := h.drawn.cteIds.nodup
  obtain ⟨m, hctes, hroot⟩ := h
  refine ⟨hctes.names, hids, hroot.wellFormed, fun before q after hsplit => ?_⟩
  obtain ⟨_, _, hblock⟩ := hctes.block hsplit
  exact hblock.wellFormed

/-- Whatever canvas is read off a query, whichever tables are known, is in good order; and the
diagnosis finds an error on it exactly if the name of a named query is blank. -/
theorem read_canvas_in_good_order (catalog : Catalog) (q : Query) (n n' : Nat) (c : Canvas)
    (h : (readCanvas catalog q).run n = (.ok c, n')) :
    c.WellFormed ∧
      ((∃ f ∈ c.diagnose, f.severity = .error) ↔ ∃ r ∈ c.ctes, (Text.trim r.name).isEmpty) := by
  have hwell := ((readCanvas_reached catalog q n).result c n' h).wellFormed
  exact ⟨hwell, hwell.exists_error_iff⟩

/-- A named query is read beside a table that it is joined with and a nested query that a filter
compares with, up to a limit that is a parameter. -/
theorem read_canvas_in_good_order_with_links :
    let text := "WITH w AS (SELECT a FROM o) SELECT w.a FROM w JOIN u ON w.a = u.a " ++
      "WHERE u.a IN (SELECT a FROM p) LIMIT \x7b\x7bn\x7d\x7d"
    ∃ q c n', Query.parse .generic text = .ok q ∧ (readCanvas .empty q).run 0 = (.ok c, n') ∧
      c.ctes.map (·.name) = ["w"] ∧
      c.blocks.map (·.tables.map (·.name)) = [["w", "u"], ["p"], ["o"]] ∧
      c.WellFormed ∧ ¬∃ f ∈ c.diagnose, f.severity = .error := by
  intro text
  have hread : ((Query.parse .generic text).toOption.map fun q =>
      ((readCanvas .empty q).run 0).1.toOption.map fun c : Canvas =>
        (c.ctes.map (·.name), c.blocks.map (·.tables.map (·.name)))) =
      some (some (["w"], [["w", "u"], ["p"], ["o"]])) := by decide +kernel
  obtain ⟨q, hq, hcanvas⟩ := Option.map_eq_some_iff.1 hread
  obtain ⟨c, n', hrun, hdrawn⟩ := gives_of_toOption hcanvas
  obtain ⟨hnames, htables⟩ := Prod.mk.inj hdrawn
  obtain ⟨hwell, herror⟩ := read_canvas_in_good_order .empty q 0 n' c hrun
  refine ⟨q, c, n', ?_, hrun, hnames, htables, hwell, fun h => ?_⟩
  · cases hparse : Query.parse .generic text with
    | error e =>
      rw [hparse] at hq
      cases hq
    | ok q' =>
      rw [hparse] at hq
      exact congrArg Except.ok (Option.some.inj hq)
  · obtain ⟨r, hr, hblank⟩ := herror.1 h
    have hname : r.name ∈ ["w"] := hnames ▸ List.mem_map_of_mem hr
    rw [List.mem_singleton.1 hname] at hblank
    exact absurd hblank (by decide +kernel)

end Sql

end QueryCanvas
