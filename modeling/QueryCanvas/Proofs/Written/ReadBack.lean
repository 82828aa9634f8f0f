import QueryCanvas.Proofs.Arrangement.Recast
import QueryCanvas.Proofs.Canvas.Tree
import QueryCanvas.Proofs.Reading.Drawn
import QueryCanvas.Proofs.Written.Canonical
import QueryCanvas.Proofs.Written.ReadConditions
import QueryCanvas.Proofs.Written.ReadFrom

/-!
# A written select is read as a block of its normal form

Every written select can be read, if its nested queries can.  The block that is read is arranged in
the written items again, and is written as the normal form of the select, with the texts that the
nested blocks are written as.  So the text of a canonical block settles: it is read as a block of a
text that does not change any more.
-/

set_option autoImplicit false

namespace QueryCanvas.Sql

section Items

variable {b : Block} {before : List Table} {ws : List WrittenStep} {steps : List JoinStep}

/-! ## Items as they are written -/

theorem JoinRead.joinForm {kind : JoinKind} {t : Table} {c : TableColumn × TableColumn} {j : Join}
    (h : JoinRead before kind t c j) (hnames : ∀ u ∈ before, b.tableName u.id = u.name)
    (ht : b.tableName t.id = t.name) : joinForm b j = c := by
  obtain ⟨hsource, htarget⟩ := h.columns
  obtain ⟨⟨table, column⟩, table', column'⟩ := c
  obtain ⟨u, hu, ⟨hs, hsn, htt, htn⟩ | ⟨hs, hsn, htt, htn⟩⟩ := h.tables
  · simp only at hsource htarget hsn htn
    rw [Sql.joinForm, hs, htt, hnames u hu, ht, hsource, htarget, hsn, htn]
  · simp only at hsource htarget hsn htn
    rw [Sql.joinForm, hs, htt, hnames u hu, ht, hsource, htarget, hsn, htn]

theorem map_joinForm {kind : JoinKind} {t : Table} {cs : List (TableColumn × TableColumn)}
    {js : List Join} (h : cs.Forall₂ (JoinRead before kind t) js)
    (hnames : ∀ u ∈ before, b.tableName u.id = u.name) (ht : b.tableName t.id = t.name) :
    js.map (joinForm b) = cs := by
  induction h with
  | nil => rfl
  | cons hj _ ih => rw [List.map_cons, hj.joinForm hnames ht, ih]

theorem StepsRead.map_stepForm (h : StepsRead before ws steps)
    (hnames : ∀ u ∈ before ++ steps.filterMap (·.joined), b.tableName u.id = u.name) :
    steps.map (stepForm b) = ws := by
  induction h with
  | nil => rfl
  | @cons before w ws t js steps hname hjoins _ ih =>
    have hbefore : ∀ u ∈ before, b.tableName u.id = u.name :=
      fun u hu => hnames u (List.mem_append_left _ hu)
    have ht : b.tableName t.id = t.name := hnames t (List.mem_append_right _ List.mem_cons_self)
    have hforms : js.map (joinForm b) = w.conditions :=
      map_joinForm hjoins hbefore ht
    rw [List.map_cons, ih fun u hu => hnames u (by rwa [List.append_assoc] at hu)]
    show (⟨w.kind, t.name, js.map (joinForm b)⟩ : WrittenStep) :: ws = w :: ws
    rw [hname, hforms]

theorem ItemRead.itemForm {w : WrittenItem} {i : FromItem} (h : ItemRead w i)
    (hnames : ∀ u ∈ i.tables, b.tableName u.id = u.name) : itemForm b i = w := by
  rw [Sql.itemForm, h.base, h.steps.map_stepForm hnames]

/-! ## Chains of steps -/

theorem JoinRead.ties {kind : JoinKind} {t : Table} {c : TableColumn × TableColumn} {j : Join}
    (h : JoinRead before kind t c j) : j.kind = kind ∧ ∃ u ∈ before, j.Ties u.id t.id := by
  obtain ⟨u, hu, ⟨hs, -, ht, -⟩ | ⟨hs, -, ht, -⟩⟩ := h.tables
  · exact ⟨h.kind, u, hu, .inl ⟨hs, ht⟩⟩
  · exact ⟨h.kind, u, hu, .inr ⟨hs, ht⟩⟩

theorem StepsRead.eq_nil_iff (h : StepsRead before ws steps) : steps = [] ↔ ws = [] := by
  cases h <;> simp

/-- Each step that was read follows from the tables before it. -/
theorem StepsRead.follows (h : StepsRead before ws steps) (hplain : ∀ w ∈ ws, w.Plain) :
    ∀ front s after, steps = front ++ s :: after → ∃ t, s.joined = some t ∧ s.conditions ≠ [] ∧
      ∀ j ∈ s.conditions, j.kind = s.kind ∧
        ∃ u ∈ before ++ front.filterMap (·.joined), j.Ties u.id t.id := by
  induction h with
  | nil => intro front s after hsplit; simp at hsplit
  | @cons before w ws t js steps hname hjoins _ ih =>
    obtain ⟨hw, hws⟩ := List.forall_mem_cons.1 hplain
    intro front s after hsplit
    cases front with
    | nil =>
      obtain ⟨rfl, -⟩ := List.cons.inj hsplit
      refine ⟨t, rfl, ?_, fun j hj => ?_⟩
      · intro hnil
        simp only at hnil
        rw [hnil, List.forall₂_nil_right_iff] at hjoins
        exact hw.some_condition hjoins
      · obtain ⟨c, -, hread⟩ := exists_of_mem_right hjoins hj
        simpa using hread.ties
    | cons s' front =>
      rw [List.cons_append, List.cons.injEq] at hsplit
      obtain ⟨rfl, hsplit⟩ := hsplit
      obtain ⟨t', ht', hne, hall⟩ := ih hws front s after hsplit
      refine ⟨t', ht', hne, fun j hj => ?_⟩
      obtain ⟨hkind, u, hu, hties⟩ := hall j hj
      refine ⟨hkind, u, ?_, hties⟩
      rwa [List.append_assoc] at hu

theorem forall₂_append_left {α β : Type} {R : α → β → Prop} {l l' : List α} :
    ∀ {m : List β}, (l ++ l').Forall₂ R m →
      ∃ k k', m = k ++ k' ∧ l.Forall₂ R k ∧ l'.Forall₂ R k' := by
  induction l with
  | nil => exact fun {m} h => ⟨[], m, rfl, .nil, h⟩
  | cons a l ih =>
    intro m h
    cases h with
    | cons hab hrest =>
      obtain ⟨k, k', rfl, hk, hk'⟩ := ih hrest
      exact ⟨_ :: k, k', rfl, .cons hab hk, hk'⟩

/-! ## The whole clause -/

variable {items : List FromItem} {us : List WrittenItem}

/-- In whatever block draws its tables in order, an item that was read is chained. -/
theorem ItemRead.chained {w : WrittenItem} {i : FromItem} (h : ItemRead w i) (hw : w.Plain)
    {front : List FromItem} (hdrawn : i.tables.Sublist b.tables)
    (hnodup : (placed (front ++ [i])).Nodup) : i.Chained b front :=
  ⟨hdrawn, hnodup, h.steps.follows hw.steps⟩

/-- **A block of tables and joins that were read off items is arranged in these items.** -/
theorem fromItems_of_read (hread : us.Forall₂ ItemRead items) (hplain : ∀ w ∈ us, w.Plain)
    (hgrouped : us = [] ∨ ∃ (first : WrittenItem) (rest : List WrittenItem) (alone : List String),
      us = first :: rest ++ alone.map (⟨·, []⟩) ∧ ∀ i ∈ rest, i.steps ≠ [])
    (htables : b.tables = items.flatMap FromItem.tables) (hjoins : b.joins = written items)
    (hids : (b.tables.map (·.id)).Nodup) : fromItems b = items := by
  rcases hgrouped with rfl | ⟨first, rest, alone, rfl, hrest⟩
  · obtain rfl := List.forall₂_nil_left_iff.1 hread
    exact fromItems_of_no_tables htables
  · obtain ⟨joined, single, rfl, hjoined, hsingle⟩ := forall₂_append_left hread
    obtain ⟨first', rest', hfirst, hrest', rfl⟩ := List.forall₂_cons_left_iff.1 hjoined
    have halone : single = (single.map (·.base)).map fun t => (⟨t, []⟩ : FromItem) := by
      have hbare : ∀ i ∈ single, (⟨i.base, []⟩ : FromItem) = id i := by
        intro i hi
        obtain ⟨w, hw, hiread⟩ := exists_of_mem_right hsingle hi
        obtain ⟨name, -, rfl⟩ := List.mem_map.1 hw
        rw [← hiread.steps.eq_nil_iff.2 rfl]
        rfl
      rw [List.map_map, Function.comp_def, List.map_congr_left hbare, List.map_id]
    rw [halone] at htables hjoins ⊢
    refine fromItems_of_chained hids ?_ ?_ ?_ ?_
    · rw [htables, List.flatMap_append, flatMap_tables_alone]
    · rw [hjoins, written_append, written_alone, List.append_nil]
    · intro front i after hsplit
      have hmem : i ∈ first' :: rest' := by simp [hsplit]
      obtain ⟨w, hw, hiread⟩ := exists_of_mem_right hjoined hmem
      have hall : (placed (front ++ [i])).Sublist (b.tables.map (·.id)) := by
        rw [htables, ← placed_eq_map, hsplit, List.append_assoc, List.cons_append, placed_append,
          placed_append, placed_singleton]
        exact List.Sublist.append_left (List.sublist_append_left i.placed _) _
      refine hiread.chained (hplain w (List.mem_append_left _ hw)) ?_ (hids.sublist hall)
      rw [htables, hsplit, List.append_assoc, List.cons_append, List.flatMap_append,
        List.flatMap_cons]
      exact (List.sublist_append_left _ _).trans (List.sublist_append_right _ _)
    · intro i hi
      obtain ⟨w, hw, hiread⟩ := exists_of_mem_right hrest' hi
      exact hiread.steps.eq_nil_iff.not.2 (hrest w hw)

/-- What corresponds to each other has the same image. -/
theorem map_eq_map_of_forall₂ {α β γ : Type} {R : α → β → Prop} {l : List α} {l' : List β}
    {f : α → γ} {f' : β → γ} (h : l.Forall₂ R l')
    (hR : ∀ a ∈ l, ∀ a' ∈ l', R a a' → f' a' = f a) : l'.map f' = l.map f := by
  induction h with
  | nil => rfl
  | cons hab _ ih =>
    rw [List.map_cons, List.map_cons, hR _ List.mem_cons_self _ List.mem_cons_self hab,
      ih fun a ha a' ha' => hR a (List.mem_cons_of_mem _ ha) a' (List.mem_cons_of_mem _ ha')]

theorem filterMap_eq_filterMap_of_forall₂ {α β γ : Type} {R : α → β → Prop} {l : List α}
    {l' : List β} {f : α → Option γ} {f' : β → Option γ} (h : l.Forall₂ R l')
    (hR : ∀ a a', R a a' → f' a' = f a) : l'.filterMap f' = l.filterMap f := by
  have hmap := map_eq_map_of_forall₂ h fun a _ a' _ => hR a a'
  have hfilter := congrArg (List.filterMap id) hmap
  rwa [List.filterMap_map, List.filterMap_map] at hfilter

/-- **What is read off written items is written as them**, whatever is chosen of the tables. -/
theorem fromItem_of_read (hread : us.Forall₂ ItemRead items) (hplain : ∀ w ∈ us, w.Plain)
    (hgrouped : us = [] ∨ ∃ (first : WrittenItem) (rest : List WrittenItem) (alone : List String),
      us = first :: rest ++ alone.map (⟨·, []⟩) ∧ ∀ i ∈ rest, i.steps ≠ [])
    {g : Table → Table} (hg : ∀ t, (g t).id = t.id) (hname : ∀ t, (g t).name = t.name)
    (htables : b.tables = (items.flatMap FromItem.tables).map g) (hjoins : b.joins = written items)
    (hids : (b.tables.map (·.id)).Nodup) :
    (fromItems b).map (fromItem .compact b) = us.map (·.text) := by
  obtain ⟨plain, hplainb⟩ : ∃ plain : Block,
      plain = { b with tables := items.flatMap FromItem.tables } := ⟨_, rfl⟩
  have hrecast : (Recasting.ofTables g hg).Recasts plain b := by
    refine ⟨by rw [hplainb]; exact htables, ?_⟩
    rw [hplainb]
    exact (List.map_id _).symm
  have hids' : (plain.tables.map (·.id)).Nodup := by
    rw [htables, List.map_map] at hids
    simp only [Function.comp_def, hg] at hids
    rwa [hplainb]
  have hitems : fromItems plain = items :=
    fromItems_of_read hread hplain hgrouped (by rw [hplainb]) (by rw [hplainb]; exact hjoins) hids'
  have hnames : ∀ i ∈ items, ∀ u ∈ i.tables, plain.tableName u.id = u.name := by
    intro i hi u hu
    have hmem : u ∈ plain.tables := by
      rw [hplainb]
      exact List.mem_flatMap.2 ⟨i, hi, hu⟩
    rw [Block.tableName, Block.table?, find?_of_nodup hids' hmem]
    rfl
  rw [fromItems_recast hrecast, hitems, List.map_map]
  refine map_eq_map_of_forall₂ hread fun w hw i hi hwi => ?_
  rw [Function.comp_apply, fromItem_recast hrecast hname,
    fromItem_itemForm (by rw [hwi.itemForm (hnames i hi)]; exact hplain w hw),
    hwi.itemForm (hnames i hi)]

end Items

section Select

open Drafting

variable {s : Scope} {ν : Type} {p : ν → Part Query} {t : ν → String} {x : WrittenSelect ν}

/-- What is read off a select, clause by clause. -/
structure SelectRead (s : Scope) (t : ν → String) (x : WrittenSelect ν) (b : Block) : Prop where
  sources : ∃ items, x.items.Forall₂ ItemRead items ∧ b.joins = written items ∧
    b.tables = (items.flatMap FromItem.tables).map (picked (x.results.filterMap (·.column?))) ∧
    (∀ u ∈ items.flatMap FromItem.tables, s.Boxes u) ∧ (b.tables.map (·.id)).Nodup
  calls : (x.results.filterMap (·.call?)).Forall₂ CallRead b.aggregates
  nested : ∃ derived scalars rs, x.derived.Forall₂ (SubqueryRead t .fromClause) derived ∧
    (x.results.filterMap (·.scalar?)).Forall₂ (SubqueryRead t .selectList) scalars ∧
    (closed x.conditions).Forall₂
      (fun c (r : Filter × List Subquery) => FilterRead t c.1 c.2 r.1 r.2) rs ∧
    b.filters = rs.map (·.1) ∧ b.subqueries = derived ++ scalars ++ rs.flatMap (·.2)
  nestedIds : (b.subqueries.map (·.id)).Nodup
  groups : x.groups.Forall₂ (fun c (g : Grouping) => g.column = c.text) b.groupBy
  havings : (closed x.havings).Forall₂ HavingRead b.having
  terms : x.terms.Forall₂ TermRead b.orderBy
  limit : b.limit = x.limit

/-! ## Reading succeeds -/

/-- The list of results can be read. -/
theorem goes_readResultList {lo m : Nat} {d₀ : Draft} (h₀ : d₀.Entered s lo m) (hs : s.Lower)
    (hx : x.Plain)
    (hcolumns : ∀ r ∈ x.results, ∀ c ∈ r.column?, ∃ u ∈ d₀.block.tables, u.name = c.table)
    (hread : ∀ r ∈ x.results, ∀ q ∈ r.scalar?, NestsAs s (p q.1).value (t q.1)) (n : Nat) :
    ∃ n' calls subs aliases, (x.results.filterMap (·.call?)).Forall₂ CallRead calls ∧
      (x.results.filterMap (·.scalar?)).Forall₂ (SubqueryRead t .selectList) subs ∧
      Goes (readResults s ((x.parts p).items.map (·.value))) n d₀ () n'
        (d₀.resulting (x.results.filterMap (·.column?)) calls subs aliases) := by
  obtain ⟨n', calls, subs, aliases, hcalls, hsubs, hgoes⟩ :=
    goes_results (p := p) h₀ hs hx.results hcolumns hread [] [] (List.forall_mem_nil _) n
  rw [Draft.resulting_nil] at hgoes
  simp only [List.nil_append] at hgoes
  refine ⟨n', calls, subs, aliases, hcalls, hsubs, goes_readResults.2 ?_⟩
  by_cases hnone : x.results = []
  · rw [hnone] at hgoes ⊢
    obtain ⟨-, hn, hd⟩ := Goes.pure_iff.1 hgoes
    exact .inl ⟨⟨"", by rw [WrittenSelect.parts, hnone]; rfl⟩, hn, hd⟩
  · refine .inr ?_
    rw [WrittenSelect.parts, if_neg (by simpa using hnone), List.map_map]
    exact hgoes

/-- A written select with something to read from is not empty. -/
theorem not_isEmptySelect (hx : x.Plain) {condition : Option Expr} {groupBy : List Expr}
    {having : Option Expr} {sx : SelectExtras} {orderBy : Option (List OrderTerm)}
    {limit : Option Expr} {items : List SelectItem} :
    isEmptySelect items (fromClausePart (x.parts p).sources).value condition groupBy having sx
      orderBy limit = false := by
  rw [Bool.eq_false_iff, ne_eq, isEmptySelect_iff]
  rintro ⟨-, hnone, -⟩
  rw [fromClausePart_value, List.map_eq_nil_iff, WrittenSelect.parts, List.append_eq_nil_iff,
    List.map_eq_nil_iff, List.map_eq_nil_iff] at hnone
  exact hx.source.elim (absurd hnone.1) (absurd hnone.2)

theorem names_of_read {us : List WrittenItem} {items : List FromItem}
    (h : us.Forall₂ ItemRead items) :
    (items.flatMap FromItem.tables).map (·.name) = us.flatMap (·.names) := by
  induction h with
  | nil => rfl
  | cons hi _ ih => rw [List.flatMap_cons, List.flatMap_cons, List.map_append, hi.names, ih]

/-- **Every written select can be read**, if its nested queries can. -/
theorem exists_gives (hs : s.Lower) (hx : x.Plain) (harranged : x.Arranged)
    (hread : ∀ q ∈ x.nested, NestsAs s (p q).value (t q)) {nested : Bool} {ctes : List CtePart}
    (hctes : nested = true → ctes = []) (n : Nat) :
    ∃ b n', SelectRead s t x b ∧ Gives (readBlock s nested (.mk false ctes (x.parts p).body.value
      (orderPart (x.parts p).terms).value (limitPart (x.parts p).limit).value .none)) n b n' := by
  obtain ⟨items, derived, m, n₁, hitems, hderived, hentered, hfrom⟩ :=
    goes_readFrom (p := p) (t := t) hs hx harranged
      (fun q hq => hread q.1 (WrittenSelect.mem_nested.2 (.inl ⟨q, hq, rfl⟩))) n
  have hnames : (items.flatMap FromItem.tables).map (·.name) = x.tables := names_of_read hitems
  obtain ⟨n₂, calls, scalars, aliases, hcalls, hscalars, hresults⟩ :=
    goes_readResultList (p := p) (t := t) hentered hs hx
      (fun r hr c hc => by
        have hmem := harranged.columns r hr c hc
        rw [← hnames] at hmem
        obtain ⟨u, hu, hname⟩ := List.mem_map.1 hmem
        exact ⟨u, hu, hname⟩)
      (fun r hr q hq => hread q.1 (WrittenSelect.mem_nested.2 (.inr (.inl ⟨r, hr, q, hq, rfl⟩)))) n₁
  have hrole : ∀ sub ∈ scalars, sub.role = .selectList := by
    intro sub hsub
    obtain ⟨q, -, hq⟩ := exists_of_mem_right hscalars hsub
    exact hq.role
  have hwritten := (hentered.asWritten hs).of_same (.resulting _ (x.results.filterMap (·.column?))
    calls aliases hrole)
  obtain ⟨n₃, rs, hrs, hconditions⟩ := goes_readCondition (p := p) (t := t)
    (fun c hc => hwritten.column _ (hx.conditions c hc))
    (fun c hc q hq => hread q (WrittenSelect.mem_nested.2 (.inr (.inr ⟨c, hc, hq⟩)))) n₂
  have hwhere : ∀ sub ∈ rs.flatMap (·.2), sub.role = .whereClause := by
    intro sub hsub
    obtain ⟨r, hr, hsub⟩ := List.mem_flatMap.1 hsub
    obtain ⟨c, -, hc⟩ := exists_of_mem_right hrs hr
    exact hc.role sub hsub
  have hwritten₃ : (Draft.filtered _ (rs.map (·.1)) (rs.flatMap (·.2))).AsWritten :=
    hwritten.of_same (.filtered hwhere)
  obtain ⟨n₄, gs, hgs, hgrouping⟩ := goes_readGrouping hx.groups n₃ hwritten₃
  have hwritten₄ : (Draft.grouped _ gs).AsWritten := hwritten₃.of_same (.kept rfl rfl)
  obtain ⟨n₅, ks, hks, hhavings⟩ := goes_readHavings hx.havings n₄ hwritten₄
  have hwritten₅ : (Draft.having _ ks).AsWritten := hwritten₄.of_same (.kept rfl rfl)
  obtain ⟨n₆, os, hos, hsorting⟩ := goes_readSorting hx.terms n₅ hwritten₅
  obtain ⟨b, hb⟩ : ∃ b : Block, b =
      { tables := (items.flatMap FromItem.tables).map (picked (x.results.filterMap (·.column?)))
        joins := written items, filters := rs.map (·.1), groupBy := gs, having := ks, orderBy := os
        limit := x.limit, aggregates := calls
        subqueries := derived ++ scalars ++ rs.flatMap (·.2) } := ⟨_, rfl⟩
  have hgives : Gives (readBlock s nested (.mk false ctes (x.parts p).body.value
      (orderPart (x.parts p).terms).value (limitPart (x.parts p).limit).value .none)) n b n₆ := by
    refine gives_readBlock_select.2 ⟨hctes, rfl, rfl, ?_⟩
    rw [if_neg (by rw [not_isEmptySelect hx]; decide)]
    have hgroups : (x.parts p).groups.map (·.value) = x.groups.map (·.part.value) := List.map_map
    refine ⟨_, goes_readSelect.2 ⟨⟨rfl, rfl, rfl, rfl, rfl, rfl⟩, n₁, _, hfrom, n₂, _, hresults, n₃,
      _, hconditions, n₄, _, ?_, n₅, _, hhavings, n₆, _, hsorting, goes_readLimit hx.limit rfl⟩, hb⟩
    rw [hgroups]
    exact hgrouping
  have hdrawn := (Block.everywhere_iff.1 ((readBlock_drawn s nested _ n).result b n₆ hgives)).1
  refine ⟨b, n₆, ?_, hgives⟩
  have hids : (((items.flatMap FromItem.tables).map
      (picked (x.results.filterMap (·.column?)))).map (·.id)).Nodup := by
    have hids : ((items.flatMap FromItem.tables).map (·.id)).Nodup := hentered.ids.nodup
    rw [List.map_map]
    simpa only [Function.comp_def, id_picked] using hids
  have hnested := hdrawn.nestedIds.nodup
  rw [hb] at hnested ⊢
  exact ⟨⟨items, hitems, rfl, rfl, hentered.boxes, hids⟩, hcalls,
    ⟨derived, scalars, rs, hderived, hscalars, hrs, rfl, rfl⟩, hnested, hgs, hks, hos, rfl⟩

/-! ## What is read is written in normal form -/

namespace SelectRead

variable {b : Block}

theorem source (h : SelectRead s t x b) (hx : x.Plain) : b.hasNoSource = false := by
  obtain ⟨items, hitems, -, htables, -⟩ := h.sources
  obtain ⟨derived, scalars, rs, hderived, -, -, -, hsubs⟩ := h.nested
  rw [hasNoSource_eq_false_iff]
  refine hx.source.imp (fun hne => ?_) fun hne => ?_
  · obtain ⟨w, ws, hws⟩ := List.exists_cons_of_ne_nil hne
    rw [hws] at hitems
    obtain ⟨i, is, -, -, rfl⟩ := List.forall₂_cons_left_iff.1 hitems
    rw [htables]
    simp [FromItem.tables]
  · obtain ⟨q, qs, hqs⟩ := List.exists_cons_of_ne_nil hne
    rw [hqs] at hderived
    obtain ⟨sub, subs, hread, -, rfl⟩ := List.forall₂_cons_left_iff.1 hderived
    exact ⟨sub, by simp [hsubs], hread.role⟩

theorem sources_eq (h : SelectRead s t x b) (hx : x.Plain) (harranged : x.Arranged) :
    (fromItems b).map (fromItem .compact b) = x.items.map (·.text) := by
  obtain ⟨items, hitems, hjoins, htables, -, hids⟩ := h.sources
  exact fromItem_of_read hitems hx.items harranged.grouped (id_picked _) (name_picked _) htables
    hjoins hids

/-- Nested queries of each role. -/
theorem subqueriesIn_eq {derived scalars linked : List Subquery}
    (hderived : ∀ sub ∈ derived, sub.role = .fromClause)
    (hscalars : ∀ sub ∈ scalars, sub.role = .selectList)
    (hlinked : ∀ sub ∈ linked, sub.role = .whereClause)
    (hsubs : b.subqueries = derived ++ scalars ++ linked) :
    b.subqueriesIn .fromClause = derived ∧ b.subqueriesIn .selectList = scalars := by
  have hall : ∀ {l : List Subquery} {role : SubqueryRole}, (∀ sub ∈ l, sub.role = role) →
      l.filter (·.role = role) = l :=
    fun hl => List.filter_eq_self.2 fun sub hsub => decide_eq_true (hl sub hsub)
  have hnone : ∀ {l : List Subquery} {role role' : SubqueryRole}, (∀ sub ∈ l, sub.role = role) →
      role ≠ role' → l.filter (·.role = role') = [] :=
    fun hl hne => List.filter_eq_nil_iff.2 fun sub hsub => by simpa [hl sub hsub] using hne
  simp only [Block.subqueriesIn, hsubs, List.filter_append]
  rw [hall hderived, hnone hscalars (by decide), hnone hlinked (by decide),
    hnone hderived (by decide), hall hscalars, hnone hlinked (by decide)]
  simp

/-- Nested queries are written as what was read. -/
theorem nestedItems_eq {role : SubqueryRole} {qs : List (ν × Option String)}
    (h : qs.Forall₂ (SubqueryRead t role) (b.subqueriesIn role)) :
    nestedItems (nestedTexts b fun c => bracketed (innerText c)) role =
      qs.map fun q => aliased (bracketed (t q.1)) q.2 := by
  rw [nestedItems_nestedTexts]
  refine map_eq_map_of_forall₂ h fun q _ sub _ hread => ?_
  rw [hread.text, hread.aliasName]

/-- The columns of a table that are chosen, in their order. -/
theorem orderedSelection_picked {u : Table} (hu : s.Boxes u) :
    (picked (x.results.filterMap (·.column?)) u).orderedSelection.map (⟨u.name, ·⟩) =
      x.columnsOf s.declared u.name := by
  rw [orderedSelection_eq, columns_picked, hu.columns, selected_picked _ hu.selected]
  rfl

/-- The chosen columns of all tables, as they are written. -/
theorem chosenColumns_eq (h : SelectRead s t x b) :
    b.tables.flatMap chosenColumns =
      (x.tables.flatMap (x.columnsOf s.declared)).map TableColumn.text := by
  obtain ⟨items, hitems, -, htables, hboxes, -⟩ := h.sources
  rw [htables, List.flatMap_map, WrittenSelect.tables, ← names_of_read hitems, List.flatMap_map,
    List.map_flatMap]
  refine List.flatMap_congr fun u hu => ?_
  rw [← orderedSelection_picked (hboxes u hu), chosenColumns, List.map_map]
  refine List.map_congr_left fun column _ => ?_
  simp only [aggregates_picked, (hboxes u hu).aggregates, name_picked]
  rfl

theorem roles (h : SelectRead s t x b) :
    x.derived.Forall₂ (SubqueryRead t .fromClause) (b.subqueriesIn .fromClause) ∧
      (x.results.filterMap (·.scalar?)).Forall₂ (SubqueryRead t .selectList)
        (b.subqueriesIn .selectList) := by
  obtain ⟨derived, scalars, rs, hderived, hscalars, hrs, -, hsubs⟩ := h.nested
  have hread : ∀ {role : SubqueryRole} {qs : List (ν × Option String)} {subs : List Subquery},
      qs.Forall₂ (SubqueryRead t role) subs → ∀ sub ∈ subs, sub.role = role := by
    intro role qs subs hqs sub hsub
    obtain ⟨q, -, hq⟩ := exists_of_mem_right hqs hsub
    exact hq.role
  obtain ⟨hfrom, hselect⟩ := subqueriesIn_eq (hread hderived) (hread hscalars) (fun sub hsub => by
    obtain ⟨r, hr, hsub⟩ := List.mem_flatMap.1 hsub
    obtain ⟨c, -, hc⟩ := exists_of_mem_right hrs hr
    exact hc.role sub hsub) hsubs
  exact ⟨hfrom ▸ hderived, hselect ▸ hscalars⟩

theorem conditions_eq (h : SelectRead s t x b) :
    (b.filters.map fun f =>
      (filterText (nestedTexts b fun c => bracketed (innerText c)) f, f.connector)) =
      (x.normal s.declared).conditions.map fun c => (c.1.text fun q => bracketed (t q), c.2) := by
  obtain ⟨derived, scalars, rs, -, -, hrs, hfilters, hsubs⟩ := h.nested
  rw [hfilters, List.map_map, WrittenSelect.normal]
  simp only
  rw [← map_closed, List.map_map]
  refine map_eq_map_of_forall₂ hrs fun c _ r hr hread => ?_
  have htext := hread.filterText_eq h.nestedIds fun sub hsub => by
    rw [hsubs]
    exact List.mem_append_right _ (List.mem_flatMap.2 ⟨r, hr, hsub⟩)
  rw [Function.comp_apply, htext, hread.connector]
  rfl

/-- **What is read off a select is written as its normal form.** -/
theorem writtenAs (h : SelectRead s t x b) (hx : x.Plain) (harranged : x.Arranged) :
    WrittenAs b (nestedTexts b fun c => bracketed (innerText c)) (x.normal s.declared)
      fun q => bracketed (t q) := by
  obtain ⟨hderived, hscalars⟩ := h.roles
  refine ⟨h.source hx, ?_, ?_, h.conditions_eq, ?_, ?_, ?_, h.limit⟩
  · have hcalls : b.aggregates.map (fun a => aliased (call a.function a.expression) a.aliasName) =
        (x.results.filterMap (·.call?)).map fun c =>
          aliased (call c.function c.argument.text) c.aliasName := by
      refine map_eq_map_of_forall₂ h.calls fun c _ a _ ha => ?_
      rw [ha.function, ha.expression, ha.aliasName]
    rw [h.chosenColumns_eq, hcalls, nestedItems_eq hscalars]
    simp only [WrittenSelect.normal, sorted, List.map_append, List.map_map]
    rfl
  · rw [h.sources_eq hx harranged, nestedItems_eq hderived]
    rfl
  · exact map_eq_map_of_forall₂ h.groups fun c _ g _ hg => hg
  · have hhavings : (b.having.map fun k => (havingText k, k.connector)) =
        (closed x.havings).map fun k => (k.1.reread.text, k.2) := by
      refine map_eq_map_of_forall₂ h.havings fun k _ k' _ hk => ?_
      rw [hk.1, hk.2]
    rw [hhavings, WrittenSelect.normal]
    simp only
    rw [← map_closed, List.map_map]
    rfl
  · exact map_eq_map_of_forall₂ h.terms fun t _ o _ ho => ho

/-- The results of the block are those of the normal form. -/
theorem outputColumns_eq (h : SelectRead s t x b) :
    b.outputColumns = (x.normal s.declared).outputs := by
  obtain ⟨-, hscalars⟩ := h.roles
  obtain ⟨items, hitems, -, htables, hboxes, -⟩ := h.sources
  have hchosen : b.tables.flatMap (fun u => u.orderedSelection.map fun column =>
      ((u.aggregates.find? column).bind (·.aliasName)).getD column) =
        (x.tables.flatMap (x.columnsOf s.declared)).map (·.column) := by
    rw [htables, List.flatMap_map, WrittenSelect.tables, ← names_of_read hitems, List.flatMap_map,
      List.map_flatMap]
    refine List.flatMap_congr fun u hu => ?_
    rw [← orderedSelection_picked (hboxes u hu), List.map_map]
    refine List.map_congr_left fun column _ => ?_
    simp only [aggregates_picked, (hboxes u hu).aggregates]
    rfl
  have hcalls : b.aggregates.filterMap (·.aliasName) =
      (x.results.filterMap (·.call?)).filterMap (·.aliasName) :=
    filterMap_eq_filterMap_of_forall₂ h.calls fun _ _ ha => ha.aliasName
  have haliases : (b.subqueriesIn .selectList).filterMap (·.aliasName) =
      (x.results.filterMap (·.scalar?)).filterMap (·.2) :=
    filterMap_eq_filterMap_of_forall₂ hscalars fun _ _ hq => hq.aliasName
  have hcolumns : ∀ cs : List TableColumn,
      cs.filterMap (WrittenResult.name? (ν := ν) ∘ WrittenResult.column) = cs.map (·.column) :=
    fun cs => congrFun List.filterMap_eq_map cs
  rw [Block.outputColumns, hchosen, hcalls, haliases, WrittenSelect.outputs, WrittenSelect.normal]
  simp only [sorted, List.filterMap_append, List.filterMap_map, hcolumns, List.append_assoc]
  rfl

end SelectRead

/-- **A select is read as a block that is written as the normal form of the select.** -/
theorem exists_readBack (hs : s.Lower) (hx : x.Plain) (harranged : x.Arranged)
    (hread : ∀ q ∈ x.nested, NestsAs s (p q).value (t q)) {nested : Bool} {ctes : List CtePart}
    (hctes : nested = true → ctes = []) (n : Nat) :
    ∃ b n', Gives (readBlock s nested (.mk false ctes (x.parts p).body.value
        (orderPart (x.parts p).terms).value (limitPart (x.parts p).limit).value .none)) n b n' ∧
      b.hasNoSource = false ∧
      renderBlock .compact b = (x.normal s.declared).text (fun q => bracketed (t q)) ∧
      b.outputColumns = (x.normal s.declared).outputs := by
  obtain ⟨b, n', h, hgives⟩ := exists_gives hs hx harranged hread hctes n
  refine ⟨b, n', hgives, h.source hx, ?_, h.outputColumns_eq⟩
  rw [renderBlock_compact]
  exact (h.writtenAs hx harranged).blockText_eq

end Select

section Settling

/-! ## Texts that are read back -/

/-- Wherever the tables declare these columns, the select is read as a block of that text and with
these results. -/
def ReadsAsBlock (δ : String → List String) (x : SelectParts) (text : String)
    (outputs : List String) : Prop :=
  ∀ s : Scope, s.Lower → s.declared = δ → ∀ {nested : Bool} {ctes : List CtePart},
    (nested = true → ctes = []) → ∀ n, ∃ b n',
      Gives (readBlock s nested (.mk false ctes x.body.value (orderPart x.terms).value
        (limitPart x.limit).value .none)) n b n' ∧
      b.hasNoSource = false ∧ renderBlock .compact b = text ∧ b.outputColumns = outputs

/-- The text is written as a select. -/
structure WrittenBy (text : String) (x : SelectParts) : Prop where
  readable : x.Readable
  source : x.sources ≠ []
  spells : Spells text x.query.tokens

/-- What is written of a block is read back as a text that does not change any more. -/
structure Settles (δ : String → List String) (b : Block) (old new : SelectParts) (text : String)
    (outputs : List String) : Prop where
  writes : WrittenBy (renderBlock .compact b) old
  rewrites : WrittenBy text new
  levels : new.query.levels ≤ old.query.levels
  reads : ReadsAsBlock δ old text outputs
  rereads : ReadsAsBlock δ new text outputs
  lower : ∀ c ∈ outputs, c.toLower = c
  nodup : outputs.Nodup

/-- The same of a nested block, which can be empty. -/
structure NestedSettles (δ : String → List String) (b : Block) (old new : Part Query)
    (text : String) : Prop where
  writes : old.IsQuery ∧ Spells (innerText b) old.tokens
  rewrites : new.IsQuery ∧ Spells text new.tokens
  levels : new.levels ≤ old.levels
  reads : ∀ s : Scope, s.Lower → s.declared = δ → NestsAs s old.value text
  rereads : ∀ s : Scope, s.Lower → s.declared = δ → NestsAs s new.value text

variable {δ : String → List String} {b : Block} {old new : SelectParts} {text : String}
  {outputs : List String}

theorem WrittenBy.isQuery {x : SelectParts} (h : WrittenBy text x) : x.query.IsQuery :=
  SelectParts.isQuery_select h.readable (.inl h.source)

theorem ReadsAsBlock.nestsAs {x : SelectParts} (h : ReadsAsBlock δ x text outputs) {s : Scope}
    (hs : s.Lower) (hδ : s.declared = δ) : NestsAs s x.query.value text := by
  intro n
  obtain ⟨b, n', hgives, hsource, htext, -⟩ :=
    h s hs hδ (fun _ => rfl) n
  refine ⟨b, n', hgives, ?_⟩
  rw [innerText, hsource, if_neg (by decide), htext]

/-- A block with something to read from settles as a nested block. -/
theorem Settles.nested (h : Settles δ b old new text outputs) (hsource : b.hasNoSource = false) :
    NestedSettles δ b old.query new.query text := by
  have hinner : innerText b = renderBlock .compact b := by
    rw [innerText, hsource, if_neg (by decide)]
  exact ⟨⟨h.writes.isQuery, hinner ▸ h.writes.spells⟩,
    ⟨h.rewrites.isQuery, h.rewrites.spells⟩, h.levels,
    fun _ => h.reads.nestsAs, fun _ => h.rereads.nestsAs⟩

/-! ## Empty nested blocks -/

/-- The select that stands for an empty block. -/
def nullSelect : SelectParts :=
  { items := [itemPart nullPart none], sources := [], conditions := [], groups := [], havings := []
    terms := [], limit := none }

theorem isQuery_nullSelect : nullSelect.query.IsQuery := by
  refine SelectParts.isQuery_select ⟨by simp [nullSelect], ?_, ?_, ?_, ?_, ?_, ?_, ?_⟩ (.inr rfl)
  · intro p hp
    rw [List.mem_singleton.1 hp]
    exact isItem_null
  all_goals simp [nullSelect]

theorem spells_nullSelect : Spells emptyNested nullSelect.query.tokens :=
  .behind (s := "SELECT") (by decide) (.name (s := "NULL") (by decide))

theorem nestsAs_nullSelect (s : Scope) : NestsAs s nullSelect.query.value emptyNested := by
  intro n
  refine ⟨Block.empty, n, gives_readBlock_select.2 ⟨fun _ => rfl, rfl, rfl, ?_⟩, rfl⟩
  exact (if_pos (rfl : _ = true)).mpr ⟨rfl, rfl⟩

theorem nestedSettles_empty (hsource : b.hasNoSource = true) :
    NestedSettles δ b nullSelect.query nullSelect.query emptyNested := by
  have hinner : innerText b = emptyNested := by rw [innerText, if_pos hsource]
  exact ⟨⟨isQuery_nullSelect, hinner ▸ spells_nullSelect⟩, ⟨isQuery_nullSelect, spells_nullSelect⟩,
    Nat.le_refl _, fun s _ _ => nestsAs_nullSelect s, fun s _ _ => nestsAs_nullSelect s⟩

/-! ## Canonical blocks -/

theorem WrittenSelect.Plain.lower_outputs {ν : Type} {x : WrittenSelect ν} (hx : x.Plain) :
    ∀ c ∈ x.outputs, c.toLower = c := by
  intro c hc
  obtain ⟨r, hr, hname⟩ :=
    List.mem_filterMap.1 (((Block.mem_addNew _ _).1 hc).resolve_left (by simp))
  have hplain := hx.results r hr
  cases r with
  | column c' =>
    obtain rfl := Option.some.inj hname
    exact TableColumn.Plain.column hplain |>.lower
  | call a => exact (hplain.2 c hname).lower
  | scalar q aliasName => exact (hplain c hname).lower

/-- A block that is written as a select settles if the nested blocks do. -/
theorem settles_written {x : WrittenSelect Block} (hδ : ∀ table, (δ table).Nodup) (hx : x.Plain)
    (harranged : x.Arranged) (hwritten : ∀ g, WrittenAs b (nestedTexts b g) x g)
    {old new : Block → Part Query} {t : Block → String}
    (hnested : ∀ q ∈ x.nested, NestedSettles δ q (old q) (new q) (t q)) :
    Settles δ b (x.parts old) ((x.normal δ).parts new)
      ((x.normal δ).text fun q => bracketed (t q)) (x.normal δ).outputs := by
  have hnormal : (x.normal δ).Plain := hx.normal
  have hbelow {q : Block} (hq : q ∈ (x.normal δ).nested) :=
    hnested q (WrittenSelect.mem_nested_of_normal hq)
  refine ⟨⟨hx.readable fun q hq => (hnested q hq).writes.1, hx.sources_ne_nil, ?_⟩,
    ⟨hnormal.readable fun q hq => (hbelow hq).rewrites.1, hnormal.sources_ne_nil,
      hnormal.spells fun q hq => .enclosed (hbelow hq).rewrites.2⟩, ?_, ?_, ?_,
    hnormal.lower_outputs, nodup_addNew List.nodup_nil _⟩
  · rw [renderBlock_compact, (hwritten _).blockText_eq]
    exact hx.spells fun q hq => .enclosed (hnested q hq).writes.2
  · exact WrittenSelect.levels_normal fun q hq => (hnested q hq).levels
  · intro s hs hdeclared nested ctes hctes n
    obtain ⟨b', n', hgives, hsource, htext, hout⟩ := exists_readBack (p := old) hs hx harranged
      (fun q hq => (hnested q hq).reads s hs hdeclared) hctes n
    rw [hdeclared] at htext hout
    exact ⟨b', n', hgives, hsource, htext, hout⟩
  · intro s hs hdeclared nested ctes hctes n
    obtain ⟨b', n', hgives, hsource, htext, hout⟩ := exists_readBack (p := new) hs hnormal
      harranged.normal (fun q hq => (hbelow hq).rereads s hs hdeclared) hctes n
    rw [hdeclared, WrittenSelect.normal_normal harranged.names hδ] at htext hout
    exact ⟨b', n', hgives, hsource, htext, hout⟩

/-- What each of some blocks settles as can be chosen. -/
theorem exists_nestedSettles {l : List Block}
    (h : ∀ q ∈ l, ∃ old new t, NestedSettles δ q old new t) :
    ∃ (old new : Block → Part Query) (t : Block → String),
      ∀ q ∈ l, NestedSettles δ q (old q) (new q) (t q) := by
  have hall : ∀ q, ∃ c : Part Query × Part Query × String, q ∈ l →
      NestedSettles δ q c.1 c.2.1 c.2.2 := by
    intro q
    by_cases hq : q ∈ l
    · obtain ⟨old, new, t, hsettles⟩ := h q hq
      exact ⟨(old, new, t), fun _ => hsettles⟩
    · exact ⟨(nullSelect.query, nullSelect.query, ""), fun hmem => absurd hmem hq⟩
  choose f hf using hall
  exact ⟨fun q => (f q).1, fun q => (f q).2.1, fun q => (f q).2.2, fun q hq => hf q hq⟩

/-- A canonical block settles if its nested blocks do. -/
theorem settles_of_nested (hδ : ∀ table, (δ table).Nodup) (h : b.Canonical)
    (hsource : b.hasNoSource = false)
    (hnested : ∀ s ∈ b.subqueries, ∃ old new t, NestedSettles δ s.block old new t) :
    ∃ old new t out, Settles δ b old new t out := by
  obtain ⟨x, hx, harranged, hblocks, hwritten⟩ := h.exists_written hsource
  obtain ⟨old, new, t, hall⟩ := exists_nestedSettles (l := x.nested) (δ := δ) fun q hq => by
    obtain ⟨s, hs, rfl⟩ := hblocks q hq
    exact hnested s hs
  exact ⟨_, _, _, _, settles_written hδ hx harranged hwritten hall⟩

/-- **Nested blocks settle**, if they are canonical throughout. -/
theorem nested_settles (hδ : ∀ table, (δ table).Nodup) :
    ∀ b : Block, b.Everywhere Block.Canonical → ∃ old new t, NestedSettles δ b old new t := by
  refine Block.tree_induction fun b ih h => ?_
  obtain ⟨hself, hbelow⟩ := Block.everywhere_iff.1 h
  cases hsource : b.hasNoSource with
  | true => exact ⟨_, _, _, nestedSettles_empty hsource⟩
  | false =>
    obtain ⟨old, new, t, out, hsettles⟩ := settles_of_nested hδ hself hsource fun s hs =>
      ih s hs (hbelow s hs)
    exact ⟨_, _, _, hsettles.nested hsource⟩

/-- **A block with something to read from settles**, if it is canonical throughout. -/
theorem settles (hδ : ∀ table, (δ table).Nodup) (h : b.Everywhere Block.Canonical)
    (hsource : b.hasNoSource = false) : ∃ old new t out, Settles δ b old new t out := by
  obtain ⟨hself, hbelow⟩ := Block.everywhere_iff.1 h
  exact settles_of_nested hδ hself hsource fun s hs => nested_settles hδ s.block (hbelow s hs)

end Settling

end QueryCanvas.Sql
