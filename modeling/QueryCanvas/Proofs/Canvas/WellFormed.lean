import Mathlib.Logic.ExistsUnique
import QueryCanvas.Diagnosis
import QueryCanvas.Proofs.Canvas.Edits

/-!
# Canvases in good order

What a canvas has to keep to for its query to say all that is drawn: names that are not taken twice,
joins between two tables that are there, filters and nested queries that belong together one to one,
links that lead back to named queries.  The diagnosis finds no error on such a canvas, unless the
name of a named query is blank.
-/

set_option autoImplicit false

namespace QueryCanvas

/-- The nested query and the filter name each other. -/
def Subquery.Answers (s : Subquery) (f : Filter) : Prop :=
  s.linkedFilter = some f.id ∧ f.operand = .subquery s.id

/-- A block in good order, that can read from the named queries `ctes`. -/
structure Block.WellFormed (ctes : List Cte) (b : Block) : Prop where
  /-- Tables have different names in any case. -/
  names : (b.tables.map (·.name)).Pairwise fun name name' => ¬Text.sameName name name'
  /-- Each join ties two different tables of the block. -/
  joins : ∀ j ∈ b.joins, ∃ source ∈ b.tables, ∃ target ∈ b.tables,
    source.id = j.sourceTable ∧ target.id = j.targetTable ∧ source.id ≠ target.id
  /-- Each nested query in the `WHERE` clause belongs to one filter. -/
  answered : ∀ s ∈ b.subqueriesIn .whereClause, ∃! f, f ∈ b.filters ∧ s.Answers f
  /-- Each filter that compares with a nested query belongs to one in the `WHERE` clause. -/
  served : ∀ f ∈ b.filters, f.operand.subquery?.isSome →
    ∃! s, s ∈ b.subqueriesIn .whereClause ∧ s.Answers f
  /-- No column of a table is chosen twice. -/
  selected : ∀ t ∈ b.tables, t.selected.Nodup
  /-- No column has an aggregate around it. -/
  plain : ∀ t ∈ b.tables, t.aggregates = .empty
  /-- A limit that is no number is a parameter. -/
  limit : ∀ text, b.limit = some (.parameter text) → Parameter.isParameter text
  /-- A table that is linked to a named query reads one that it can read from, and has its name. -/
  links : ∀ t ∈ b.tables, ∀ id, t.cte = some id → ∃ q ∈ ctes, q.id = id ∧ q.name = t.name

/-- A canvas in good order.  The blocks of a named query can read from the named queries before it
only. -/
structure Canvas.WellFormed (c : Canvas) : Prop where
  names : (c.ctes.map (·.name)).Pairwise fun name name' => ¬Text.sameName name name'
  ids : c.cteIds.Nodup
  root : c.root.Everywhere (Block.WellFormed c.ctes)
  bodies : ∀ before q after, c.ctes = before ++ q :: after →
    q.block.Everywhere (Block.WellFormed before)

/-! ## What the diagnosis finds -/

namespace Diagnosis

/-- Named queries of different names that are not blank give no finding. -/
theorem cteNames_eq_nil {ctes : List Cte}
    (hnames : (ctes.map (·.name)).Pairwise fun name name' => ¬Text.sameName name name')
    (hblank : ∀ q ∈ ctes, (Text.trim q.name).isEmpty = false) {before : List String}
    (hbefore : ∀ q ∈ ctes, ∀ name ∈ before, ¬Text.sameName q.name name) :
    cteNames before ctes = [] := by
  induction ctes generalizing before with
  | nil => rfl
  | cons q rest ih =>
    obtain ⟨hfirst, hrest⟩ := List.pairwise_cons.1 hnames
    obtain ⟨hq, hblank⟩ := List.forall_mem_cons.1 hblank
    obtain ⟨hnew, hbefore⟩ := List.forall_mem_cons.1 hbefore
    have htaken : before.any (Text.sameName q.name) = false := by simpa using hnew
    rw [cteNames, hq, htaken]
    refine ih hrest hblank fun r hr name hname => ?_
    rcases List.mem_cons.1 hname with rfl | hname
    · rw [Text.sameName_comm]
      exact hfirst r.name (List.mem_map_of_mem hr)
    · exact hbefore r hr name hname

/-- A blank name is an error. -/
theorem exists_error_of_blank {ctes : List Cte} {q : Cte} (hq : q ∈ ctes)
    (hblank : (Text.trim q.name).isEmpty) (before : List String) :
    ∃ f ∈ cteNames before ctes, f.severity = .error := by
  induction ctes generalizing before with
  | nil => cases hq
  | cons r rest ih =>
    rw [cteNames]
    split
    · exact ⟨_, List.mem_cons_self, rfl⟩
    · rename_i hfull
      split
      · exact ⟨_, List.mem_cons_self, rfl⟩
      · rcases List.mem_cons.1 hq with rfl | hq
        · exact absurd hblank hfull
        · exact ih hq _

variable {c : Canvas} {b : Block} {ctes : List Cte} {f : Finding}

theorem tables_eq_nil (hb : b.WellFormed ctes) (hctes : ctes ⊆ c.ctes) : tables c b = [] := by
  refine List.filterMap_eq_nil_iff.2 fun t ht => if_neg ?_
  cases hlink : t.cte with
  | none => simp
  | some id =>
    obtain ⟨q, hq, hid, -⟩ := hb.links t ht id hlink
    have hfound : (c.cte? id).isNone = false := by
      rw [Option.isNone_eq_false_iff, Canvas.cte?, List.find?_isSome]
      exact ⟨q, hctes hq, by simpa using hid⟩
    simp [hfound]

theorem joins_warn (hb : b.WellFormed ctes) (h : f ∈ joins b) : f.severity ≠ .error := by
  obtain ⟨j, hj, hf⟩ := List.mem_filterMap.1 h
  obtain ⟨source, hsource, target, htarget, hsid, htid, -⟩ := hb.joins j hj
  have hthere : ∀ {t : Table} {id}, t ∈ b.tables → t.id = id → (b.table? id).isNone = false := by
    intro t id ht hid
    rw [Option.isNone_eq_false_iff, Block.table?, List.find?_isSome]
    exact ⟨t, ht, by simpa using hid⟩
  rw [hthere hsource hsid, hthere htarget htid] at hf
  simp only [Bool.or_self, Bool.false_eq_true, if_false] at hf
  split at hf
  · cases hf
    exact Severity.noConfusion
  · cases hf

theorem column_warn {clause name : String} {id : EntityId} (h : f ∈ column b clause name id) :
    f.severity ≠ .error := by
  unfold column at h
  split at h
  · cases h
  · rw [List.mem_singleton.1 h]
    exact Severity.noConfusion

theorem filter_warn (hb : b.WellFormed ctes) {g : Filter} (hg : g ∈ b.filters)
    (h : f ∈ filter b g) : f.severity ≠ .error := by
  unfold filter at h
  rcases List.mem_append.1 h with h | h
  · exact column_warn h
  · split at h
    · rename_i hlost
      obtain ⟨id, hid, hnone⟩ := (Option.any_eq_true _ _).1 hlost
      obtain ⟨s, ⟨hs, -, hoperand⟩, -⟩ := hb.served g hg (by rw [hid]; rfl)
      rw [hoperand] at hid
      cases hid
      have hnot := List.find?_eq_none.1 (Option.isNone_iff_eq_none.1 hnone) s
        (List.mem_filter.1 hs).1
      simp at hnot
    · cases h

theorem subquery_warn {s : Subquery} (h : f ∈ subquery b s) : f.severity ≠ .error := by
  unfold subquery at h
  rcases List.mem_append.1 h with h | h
  all_goals
    split at h
    · rw [List.mem_singleton.1 h]
      exact Severity.noConfusion
    · cases h

theorem limit_eq_nil (hb : b.WellFormed ctes) : limit b.limit = [] := by
  cases hlimit : b.limit with
  | none => rfl
  | some value =>
    cases value with
    | count n => rfl
    | parameter text => exact if_pos (hb.limit text hlimit)

/-- The diagnosis finds no error on a block in good order. -/
theorem block_warn (hb : b.WellFormed ctes) (hctes : ctes ⊆ c.ctes) (h : f ∈ block c b) :
    f.severity ≠ .error := by
  simp only [block, tables_eq_nil hb hctes, limit_eq_nil hb, List.nil_append, List.append_nil,
    List.mem_append, List.mem_flatMap] at h
  rcases h with ((((((h | h) | ⟨g, hg, h⟩) | ⟨g, -, h⟩) | ⟨g, -, h⟩) | ⟨g, -, h⟩) | ⟨g, -, h⟩)
  · exact joins_warn hb h
  · obtain ⟨p, -, rfl⟩ := List.mem_map.1 h
    exact Severity.noConfusion
  · exact filter_warn hb hg h
  · exact column_warn h
  · exact column_warn h
  · exact column_warn h
  · exact subquery_warn h

end Diagnosis

namespace Canvas.WellFormed

variable {c : Canvas}

/-- Every block of a canvas in good order is in good order, and can read from some of the named
queries of the canvas. -/
theorem block (h : c.WellFormed) {b : Block} (hb : b ∈ c.blocks) :
    ∃ ctes ⊆ c.ctes, b.WellFormed ctes := by
  rcases List.mem_append.1 hb with hb | hb
  · exact ⟨c.ctes, List.Subset.refl _, h.root b hb⟩
  · obtain ⟨q, hq, hb⟩ := List.mem_flatMap.1 hb
    obtain ⟨before, after, hsplit⟩ := List.append_of_mem hq
    refine ⟨before, ?_, h.bodies before q after hsplit b hb⟩
    rw [hsplit]
    exact List.subset_append_left _ _

/-- On a canvas in good order the diagnosis finds an error exactly if the name of a named query is
blank. -/
theorem exists_error_iff (h : c.WellFormed) :
    (∃ f ∈ c.diagnose, f.severity = .error) ↔ ∃ q ∈ c.ctes, (Text.trim q.name).isEmpty := by
  have hfound : (∃ f ∈ c.diagnose, f.severity = .error) ↔
      ∃ f ∈ Diagnosis.cteNames [] c.ctes ++ c.blocks.flatMap (Diagnosis.block c),
        f.severity = .error := by
    simp only [Canvas.diagnose, List.mem_append, List.mem_filter]
    grind
  rw [hfound]
  constructor
  · rintro ⟨f, hf, herror⟩
    refine Classical.byContradiction fun hnone => ?_
    have hblank : ∀ q ∈ c.ctes, (Text.trim q.name).isEmpty = false := by simpa using hnone
    rw [Diagnosis.cteNames_eq_nil h.names hblank (by simp), List.nil_append] at hf
    obtain ⟨b, hb, hf⟩ := List.mem_flatMap.1 hf
    obtain ⟨ctes, hctes, hwell⟩ := h.block hb
    exact Diagnosis.block_warn hwell hctes hf herror
  · rintro ⟨q, hq, hblank⟩
    obtain ⟨f, hf, herror⟩ := Diagnosis.exists_error_of_blank hq hblank []
    exact ⟨f, List.mem_append_left _ hf, herror⟩

end Canvas.WellFormed

end QueryCanvas
