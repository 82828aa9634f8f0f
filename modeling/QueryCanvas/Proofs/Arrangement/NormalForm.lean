import QueryCanvas.Proofs.Arrangement.InScope
import QueryCanvas.Sql.Render

/-!
# The arrangement of a `FROM` clause is a normal form

A block whose tables and joins are drawn in the order in which its `FROM` clause writes them, each
join with the kind of the step that carries it, is arranged in the same way.  When the joins that an
item writes are taken up in their order, each finds the tables in scope that it found before, so
that one pass rebuilds the item, while the joins of later items wait.  The first of these begins
the next item, with the same table, as this is drawn first now.
-/

set_option autoImplicit false

namespace QueryCanvas.Sql

variable {b : Block} {before : List FromItem} {item : FromItem} {l : Link} {s : JoinStep}
  {u t : Table} {j : Join}

/-- The step with the conditions of joins of its own kind. -/
def JoinStep.leveled (s : JoinStep) : JoinStep :=
  { s with conditions := s.conditions.map fun j => { j with kind := s.kind } }

/-- The item with steps whose conditions are of their kind. -/
def FromItem.leveled (item : FromItem) : FromItem :=
  { item with steps := item.steps.map JoinStep.leveled }

/-- The block with its tables and joins in the order in which its `FROM` clause writes them, and the
joins of the kind that they are written as. -/
def rearranged (b : Block) : Block :=
  { b with
    tables := (fromItems b).flatMap FromItem.tables
    joins := written ((fromItems b).map FromItem.leveled) }

/-! ## Links of joins -/

/-- The links that some joins make between different tables of a block. -/
def linksOf (b : Block) (joins : List Join) : List Link :=
  (joins.filterMap (link? b)).filter fun l => l.source.id ≠ l.target.id

theorem links_eq_linksOf (b : Block) : links b = linksOf b b.joins := rfl

theorem linksOf_append (b : Block) (joins joins' : List Join) :
    linksOf b (joins ++ joins') = linksOf b joins ++ linksOf b joins' := by
  rw [linksOf, List.filterMap_append, List.filter_append]
  rfl

/-- The link connects two tables, whichever of them is its source. -/
def Link.Joins (l : Link) (u t : Table) : Prop :=
  (l.source = u ∧ l.target = t) ∨ (l.source = t ∧ l.target = u)

/-- A join between two tables of a block makes a link between them. -/
theorem linksOf_cons (hids : (b.tables.map (·.id)).Nodup) (hu : u ∈ b.tables) (ht : t ∈ b.tables)
    (hne : u.id ≠ t.id) (hties : j.Ties u.id t.id) (joins : List Join) :
    ∃ l : Link, l.join = j ∧ l.Joins u t ∧ linksOf b (j :: joins) = l :: linksOf b joins := by
  have hfound {t : Table} (ht : t ∈ b.tables) : b.table? t.id = some t := find?_of_nodup hids ht
  have hcons {l : Link} (hlink : link? b j = some l) (hdistinct : l.source.id ≠ l.target.id) :
      linksOf b (j :: joins) = l :: linksOf b joins := by
    rw [linksOf, List.filterMap_cons_some hlink, List.filter_cons_of_pos (by simpa using hdistinct)]
    rfl
  rcases hties with ⟨hsource, htarget⟩ | ⟨hsource, htarget⟩
  · refine ⟨⟨j, u, t⟩, rfl, .inl ⟨rfl, rfl⟩, hcons ?_ hne⟩
    simp only [link?, hsource, htarget, hfound hu, hfound ht]
  · refine ⟨⟨j, t, u⟩, rfl, .inr ⟨rfl, rfl⟩, hcons ?_ hne.symm⟩
    simp only [link?, hsource, htarget, hfound hu, hfound ht]

theorem ends_of_mem_linksOf {joins : List Join} (h : l ∈ linksOf b joins) :
    l.join ∈ joins ∧ l.source.id = l.join.sourceTable ∧ l.target.id = l.join.targetTable := by
  simp only [linksOf, List.mem_filter, List.mem_filterMap] at h
  obtain ⟨⟨j, hj, hlink⟩, -⟩ := h
  obtain rfl := join_of_link? hlink
  refine ⟨hj, ?_⟩
  unfold link? at hlink
  split at hlink
  · rename_i source target hsource htarget
    have hs := List.find?_some (p := fun t : Table => t.id = l.join.sourceTable) hsource
    have ht := List.find?_some (p := fun t : Table => t.id = l.join.targetTable) htarget
    rw [← Option.some.inj hlink]
    exact ⟨of_decide_eq_true hs, of_decide_eq_true ht⟩
  · cases hlink

/-! ## Items that their joins rebuild -/

/-- The step brings in a table, and its conditions, all of its own kind, tie this to tables of the
item that the step follows. -/
def JoinStep.Follows (s : JoinStep) (item : FromItem) : Prop :=
  ∃ t, s.joined = some t ∧ s.conditions ≠ [] ∧
    ∀ j ∈ s.conditions, j.kind = s.kind ∧ ∃ u ∈ item.tables, j.Ties u.id t.id

/-- An item behind others, of tables in the order in which a block draws them, in which each step
follows from those before it. -/
structure FromItem.Chained (b : Block) (before : List FromItem) (item : FromItem) : Prop where
  drawn : item.tables.Sublist b.tables
  nodup : (Sql.placed (before ++ [item])).Nodup
  follows : ∀ front s after, item.steps = front ++ s :: after → s.Follows ⟨item.base, front⟩

theorem FromItem.tables_cons {base : Table} {front after : List JoinStep}
    (hjoined : s.joined = some t) : (FromItem.mk base (front ++ s :: after)).tables =
      (FromItem.mk base front).tables ++ t :: after.filterMap (·.joined) := by
  simp [FromItem.tables, List.filterMap_append, List.filterMap_cons_some hjoined]

namespace FromItem.Chained

variable {front after : List JoinStep}

theorem not_mem_before (h : item.Chained b before) (hu : u.id ∈ item.placed) :
    u.id ∉ Sql.placed before := by
  have hnodup := h.nodup
  rw [placed_append, placed_singleton] at hnodup
  exact fun hmem => (List.nodup_append.1 hnodup).2.2 _ hmem _ hu rfl

/-- Where a step brings in a table, this is a new one. -/
theorem new (h : item.Chained b before) (hsteps : item.steps = front ++ s :: after)
    (hjoined : s.joined = some t) : t ∈ item.tables ∧
      t.id ∉ (FromItem.mk item.base front).placed ∧
        ∀ u ∈ (FromItem.mk item.base front).tables, u ∈ item.tables ∧ u.id ≠ t.id := by
  have htables : item.tables =
      (FromItem.mk item.base front).tables ++ t :: after.filterMap (·.joined) := by
    rw [← tables_cons hjoined, ← hsteps]
  have hnodup : item.placed.Nodup := by
    have hall := h.nodup
    rw [placed_append, placed_singleton] at hall
    exact (List.nodup_append.1 hall).2.1
  rw [FromItem.placed, htables, List.map_append, List.map_cons] at hnodup
  have hapart := (List.nodup_append.1 hnodup).2.2
  rw [htables]
  refine ⟨by simp, fun hmem => hapart _ hmem _ List.mem_cons_self rfl, fun u hu => ⟨?_, ?_⟩⟩
  · exact List.mem_append_left _ hu
  · exact hapart _ (List.mem_map_of_mem hu) _ List.mem_cons_self

end FromItem.Chained

/-! ## A pass over the joins of one item -/

theorem pass_append (items : List FromItem) (links links' : List Link) :
    pass items (links ++ links') =
      ((pass (pass items links).1 links').1,
        (pass items links).2.1 ++ (pass (pass items links).1 links').2.1,
        (pass items links).2.2 || (pass (pass items links).1 links').2.2) := by
  induction links generalizing items with
  | nil => simp [pass]
  | cons l rest ih =>
    rw [List.cons_append, pass, pass]
    cases attach? items l with
    | none => simp only [ih, List.cons_append]
    | some r => simp only [ih, Bool.or_assoc]

/-- Links that reach nothing in place wait. -/
theorem pass_waiting {items : List FromItem} {links : List Link}
    (h : ∀ l ∈ links, l.source.id ∉ placed items ∧ l.target.id ∉ placed items) :
    pass items links = (items, links, false) := by
  induction links with
  | nil => rfl
  | cons l rest ih =>
    obtain ⟨⟨hsource, htarget⟩, hrest⟩ := List.forall_mem_cons.1 h
    rw [← place?_isSome, Option.not_isSome_iff_eq_none] at hsource htarget
    have hnone : attach? items l = none := by
      rw [attach?, hsource, htarget]
    simp only [pass, hnone, ih hrest]

theorem place?_front {base : Table} {front : List JoinStep} {id : EntityId}
    (h : id ∈ (FromItem.mk base front).placed) (more : List JoinStep) :
    ∃ i ≤ front.length, (FromItem.mk base (front ++ more)).place? id = some i := by
  obtain ⟨i, hi⟩ := Option.isSome_iff_exists.1 (FromItem.place?_isSome.2 h)
  refine ⟨i, ?_, ?_⟩
  · obtain ⟨rfl, -⟩ | ⟨before, s, after, t, hsteps, rfl, -, -⟩ := FromItem.exists_of_place? hi
    · exact Nat.zero_le _
    · simp only at hsteps
      rw [hsteps, List.length_append, List.length_cons]
      omega
  · rw [FromItem.place?_eq] at hi ⊢
    split at hi
    · rename_i hbase
      rw [if_pos hbase, hi]
    · rename_i hbase
      obtain ⟨k, hk, rfl⟩ := Option.map_eq_some_iff.1 hi
      simp only at hk hbase
      rw [if_neg hbase, List.findIdx?_append, hk]
      rfl

theorem place?_new {base : Table} {front : List JoinStep}
    (h : t.id ∉ (FromItem.mk base front).placed) (hjoined : s.joined = some t)
    (after : List JoinStep) :
    (FromItem.mk base (front ++ s :: after)).place? t.id = some (front.length + 1) := by
  rw [← FromItem.place?_isSome, Option.not_isSome_iff_eq_none, FromItem.place?_eq] at h
  have hbrings : s.brings t.id := JoinStep.brings_iff.2 ⟨t, hjoined, rfl⟩
  split at h
  · cases h
  · rename_i hbase
    rw [Option.map_eq_none_iff] at h
    simp only at h hbase
    rw [FromItem.place?_eq, if_neg hbase, List.findIdx?_append, h, List.findIdx?_cons, hbrings]
    simp

/-- A link to a new table makes a step of its own. -/
theorem attach?_new (hl : l.Joins u t) (hu : u.id ∈ item.placed) (ht : t.id ∉ item.placed)
    (hubefore : u.id ∉ placed before) (htbefore : t.id ∉ placed before) :
    attach? (before ++ [item]) l =
      some (before ++ [item.addStep (stepOf l.join (some t))], true) := by
  obtain ⟨i, hi⟩ := Option.isSome_iff_exists.1 (FromItem.place?_isSome.2 hu)
  rw [← FromItem.place?_isSome, Option.not_isSome_iff_eq_none] at ht
  rcases hl with ⟨rfl, rfl⟩ | ⟨rfl, rfl⟩
  · rw [attach?_last hubefore htbefore, hi, ht]
  · rw [attach?_last htbefore hubefore, hi, ht]

/-- A link to the table of the last step adds its condition there. -/
theorem attach?_tied {base : Table} {front : List JoinStep} (hl : l.Joins u t)
    (hu : u.id ∈ (FromItem.mk base front).placed) (ht : t.id ∉ (FromItem.mk base front).placed)
    (hjoined : s.joined = some t) (hubefore : u.id ∉ placed before)
    (htbefore : t.id ∉ placed before) :
    attach? (before ++ [⟨base, front ++ [s]⟩]) l =
      some (before ++ [⟨base, front ++ [{ s with conditions := s.conditions ++ [l.join] }]⟩],
        false) := by
  obtain ⟨i, hle, hi⟩ := place?_front hu [s]
  have hnew := place?_new ht hjoined []
  have htie : addCondition (before ++ [⟨base, front ++ [s]⟩]) ⟨before.length, front.length + 1⟩
      l.join = before ++
        [⟨base, front ++ [{ s with conditions := s.conditions ++ [l.join] }]⟩] := by
    rw [addCondition_last, FromItem.tie, modify_append]
  have hmax : max i (front.length + 1) = front.length + 1 := Nat.max_eq_right (by omega)
  rcases hl with ⟨rfl, rfl⟩ | ⟨rfl, rfl⟩
  · rw [attach?_last hubefore htbefore, hi, hnew]
    simp only [hmax, htie]
  · rw [attach?_last htbefore hubefore, hi, hnew]
    simp only [Nat.max_comm _ i, hmax, htie]

section Rebuilt

variable {front after : List JoinStep}

/-- Further conditions of the step that brought in the last table. -/
theorem pass_conditions (hids : (b.tables.map (·.id)).Nodup) (h : item.Chained b before)
    (hsteps : item.steps = front ++ s :: after) (hjoined : s.joined = some t) {joins : List Join}
    (hjoins : ∀ j ∈ joins, ∃ u ∈ (FromItem.mk item.base front).tables, j.Ties u.id t.id)
    {s' : JoinStep} (hs' : s'.joined = some t) :
    pass (before ++ [⟨item.base, front ++ [s']⟩]) (linksOf b joins) =
      (before ++ [⟨item.base, front ++ [{ s' with conditions := s'.conditions ++ joins }]⟩], [],
        false) := by
  obtain ⟨ht, hnew, hfront⟩ := h.new hsteps hjoined
  induction joins generalizing s' with
  | nil => simp [linksOf, pass]
  | cons j joins ih =>
    obtain ⟨⟨u, hu, hties⟩, hrest⟩ := List.forall_mem_cons.1 hjoins
    obtain ⟨humem, hne⟩ := hfront u hu
    obtain ⟨l, rfl, hl, hlinks⟩ := linksOf_cons hids (h.drawn.subset humem) (h.drawn.subset ht) hne
      hties joins
    have hattach := attach?_tied hl (List.mem_map_of_mem hu) hnew hs'
      (h.not_mem_before (List.mem_map_of_mem humem)) (h.not_mem_before (List.mem_map_of_mem ht))
    rw [hlinks, pass, hattach]
    have hadded (joins : List Join) : { s' with conditions := joins }.joined = some t := hs'
    simp only [ih hrest (hadded _)]
    simp

/-- The joins of a step rebuild it behind the steps in front of it. -/
theorem pass_step (hids : (b.tables.map (·.id)).Nodup) (h : item.Chained b before)
    (hsteps : item.steps = front ++ s :: after) :
    pass (before ++ [⟨item.base, front⟩]) (linksOf b s.conditions) =
      (before ++ [⟨item.base, front ++ [s]⟩], [], true) := by
  obtain ⟨t, hjoined, hne, hconditions⟩ := h.follows front s after hsteps
  obtain ⟨ht, hnew, hfront⟩ := h.new hsteps hjoined
  obtain ⟨kind, joined, conditions⟩ := s
  obtain ⟨j, joins, rfl⟩ := List.exists_cons_of_ne_nil hne
  obtain ⟨⟨hkind, u, hu, hties⟩, hrest⟩ := List.forall_mem_cons.1 hconditions
  obtain ⟨humem, hdistinct⟩ := hfront u hu
  obtain ⟨l, rfl, hl, hlinks⟩ := linksOf_cons hids (h.drawn.subset humem) (h.drawn.subset ht)
    hdistinct hties joins
  have hattach := attach?_new hl (List.mem_map_of_mem hu) hnew
    (h.not_mem_before (List.mem_map_of_mem humem)) (h.not_mem_before (List.mem_map_of_mem ht))
  simp only at hjoined hkind
  have hstep : (stepOf l.join (some t)).joined = some t := rfl
  have hothers := pass_conditions hids h hsteps hjoined (fun j hj => (hrest j hj).2) hstep
  simp only [hlinks, pass, hattach, FromItem.addStep, hothers]
  simp [stepOf, hkind, hjoined]

/-- The joins of an item rebuild it from its first table. -/
theorem pass_item (hids : (b.tables.map (·.id)).Nodup) (h : item.Chained b before) :
    ∃ grown, pass (before ++ [⟨item.base, []⟩]) (linksOf b item.written) =
      (before ++ [item], [], grown) := by
  have hfront : ∀ front after, item.steps = front ++ after → ∃ grown,
      pass (before ++ [⟨item.base, []⟩]) (linksOf b (front.flatMap (·.conditions))) =
        (before ++ [⟨item.base, front⟩], [], grown) := by
    intro front
    induction front using List.reverseRecOn with
    | nil => exact fun after _ => ⟨false, rfl⟩
    | append_singleton front s ih =>
      intro after hsteps
      rw [List.append_assoc, List.singleton_append] at hsteps
      obtain ⟨grown, hpass⟩ := ih _ hsteps
      refine ⟨grown || true, ?_⟩
      rw [List.flatMap_append, List.flatMap_singleton, linksOf_append, pass_append, hpass]
      simp only [pass_step hids h hsteps]
      rfl
  exact hfront item.steps [] (List.append_nil _).symm

end Rebuilt

/-! ## All items -/

/-- The tables that a join of an item connects are tables of the item. -/
theorem FromItem.Chained.ends_placed (h : item.Chained b before) (hj : j ∈ item.written) :
    j.sourceTable ∈ item.placed ∧ j.targetTable ∈ item.placed := by
  obtain ⟨s, hs, hj⟩ := List.mem_flatMap.1 hj
  obtain ⟨front, after, hsteps⟩ := List.append_of_mem hs
  obtain ⟨t, hjoined, -, hconditions⟩ := h.follows front s after hsteps
  obtain ⟨-, u, hu, hties⟩ := hconditions j hj
  obtain ⟨ht, -, hfront⟩ := h.new hsteps hjoined
  have hu := List.mem_map_of_mem (f := (·.id)) (hfront u hu).1
  have ht := List.mem_map_of_mem (f := (·.id)) ht
  rcases hties with ⟨hsource, htarget⟩ | ⟨hsource, htarget⟩
  · exact ⟨hsource ▸ hu, htarget ▸ ht⟩
  · exact ⟨hsource ▸ ht, htarget ▸ hu⟩

/-- The joins of items behind others reach none of these. -/
theorem waiting_of_chained {before rest : List FromItem}
    (h : ∀ front item after, before ++ rest = front ++ item :: after → item.Chained b front) :
    ∀ l ∈ linksOf b (written rest), l.source.id ∉ placed before ∧ l.target.id ∉ placed before := by
  intro l hl
  obtain ⟨hj, hsource, htarget⟩ := ends_of_mem_linksOf hl
  obtain ⟨item, hitem, hwritten⟩ := List.mem_flatMap.1 hj
  obtain ⟨front, after, rfl⟩ := List.append_of_mem hitem
  have hchained := h (before ++ front) item after (List.append_assoc ..).symm
  obtain ⟨hs, ht⟩ := hchained.ends_placed hwritten
  rw [← hsource] at hs
  rw [← htarget] at ht
  have hapart {id : EntityId} (hid : id ∈ item.placed) : id ∉ placed before := by
    have hnot : id ∉ placed (before ++ front) := by
      obtain ⟨v, hv, rfl⟩ := List.mem_map.1 hid
      exact hchained.not_mem_before (List.mem_map_of_mem hv)
    rw [placed_append] at hnot
    exact fun hmem => hnot (List.mem_append_left _ hmem)
  exact ⟨hapart hs, hapart ht⟩

/-- A pass after which all links that still wait reach nothing in place. -/
theorem settle_pass {tables : List Table} {items next : List FromItem} {pending waiting : List Link}
    {grown : Bool} (h : pass items pending = (next, waiting, grown))
    (hwaiting : ∀ l ∈ waiting, l.source.id ∉ placed next ∧ l.target.id ∉ placed next) :
    settle tables items pending = settle tables next waiting := by
  cases waiting with
  | nil => rw [settle_done h, Stage.settle_nil]
  | cons l rest =>
    cases grown with
    | true => exact settle_grown h (List.cons_ne_nil l rest)
    | false => rw [settle_idle h, settle_idle (pass_waiting hwaiting)]

/-- Tables are found in the order in which they are drawn. -/
theorem findIdx_lt_of_sublist {tables : List Table} (hids : (tables.map (·.id)).Nodup)
    (h : List.Sublist [u, t] tables) :
    tables.findIdx (·.id = u.id) < tables.findIdx (·.id = t.id) := by
  induction tables with
  | nil => cases h
  | cons x rest ih =>
    obtain ⟨hx, hrest⟩ := List.nodup_cons.1 hids
    have hother {v : Table} (hv : v ∈ rest) : x.id ≠ v.id :=
      fun heq => hx (List.mem_map.2 ⟨v, hv, heq.symm⟩)
    cases h with
    | cons _ h =>
      have hu := hother (h.subset (by simp : u ∈ [u, t]))
      have ht := hother (h.subset (by simp : t ∈ [u, t]))
      simpa [List.findIdx_cons, hu, ht] using ih hrest h
    | cons_cons _ h =>
      have ht := hother (h.subset (by simp : t ∈ [t]))
      simp [List.findIdx_cons, ht]

/-- The first join of an item begins the item, with the table that is drawn first. -/
theorem seed_chained (hids : (b.tables.map (·.id)).Nodup) (h : item.Chained b before)
    (hsteps : item.steps ≠ []) : ∃ l rest, linksOf b item.written = l :: rest ∧
      ∃ first grown, seed b.tables before l = before ++ [first] ∧
        pass (before ++ [first]) rest = (before ++ [item], [], grown) := by
  obtain ⟨s, after, hsplit⟩ := List.exists_cons_of_ne_nil hsteps
  have hnone : item.steps = [] ++ s :: after := hsplit
  obtain ⟨t, hjoined, hne, hconditions⟩ := h.follows [] s after hnone
  obtain ⟨j, joins, hcons⟩ := List.exists_cons_of_ne_nil hne
  obtain ⟨-, u, hu, hties⟩ := hconditions j (hcons ▸ List.mem_cons_self)
  obtain rfl : u = item.base := by simpa [FromItem.tables] using hu
  obtain ⟨ht, hnew, hfront⟩ := h.new hnone hjoined
  obtain ⟨hbase, hdistinct⟩ := hfront item.base hu
  obtain ⟨l, rfl, hl, hlinks⟩ := linksOf_cons hids (h.drawn.subset hbase) (h.drawn.subset ht)
    hdistinct hties (joins ++ after.flatMap (·.conditions))
  have hwritten : item.written = l.join :: (joins ++ after.flatMap (·.conditions)) := by
    rw [FromItem.written, hsplit, List.flatMap_cons, hcons, List.cons_append]
  rw [← hwritten] at hlinks
  -- drawn before the table that it is joined with, the first table is the base
  have hpair : List.Sublist [item.base, t] b.tables := by
    refine List.Sublist.trans ?_ h.drawn
    have htables : item.tables = item.base :: t :: after.filterMap (·.joined) := by
      rw [FromItem.tables, hsplit, List.filterMap_cons_some hjoined]
    rw [htables]
    exact ((List.nil_sublist _).cons_cons t).cons_cons item.base
  have horder := findIdx_lt_of_sublist hids hpair
  have hseed : seed b.tables before l =
      before ++ [⟨item.base, [stepOf l.join (some t)]⟩] := by
    rcases hl with ⟨hsource, htarget⟩ | ⟨hsource, htarget⟩
    · simp only [seed, hsource, htarget, if_pos (Nat.le_of_lt horder)]
    · simp only [seed, hsource, htarget, if_neg (Nat.not_le_of_lt horder)]
  have hattach : attach? (before ++ [⟨item.base, []⟩]) l =
      some (before ++ [⟨item.base, [stepOf l.join (some t)]⟩], true) :=
    attach?_new hl (List.mem_map_of_mem hu) hnew
      (h.not_mem_before (List.mem_map_of_mem hbase)) (h.not_mem_before (List.mem_map_of_mem ht))
  obtain ⟨grown, hpass⟩ := pass_item hids h
  rw [hlinks, pass, hattach] at hpass
  simp only [Prod.mk.injEq] at hpass
  obtain ⟨hnext, hnone, -⟩ := hpass
  exact ⟨l, _, hlinks, _, _, hseed, Prod.ext hnext (Prod.ext hnone rfl)⟩

/-- The joins of items with steps, in the order in which they are written, begin and rebuild one
item after the other. -/
theorem settle_rebuilt (hids : (b.tables.map (·.id)).Nodup) {before rest : List FromItem}
    (h : ∀ front item after, before ++ rest = front ++ item :: after → item.Chained b front)
    (hsteps : ∀ item ∈ rest, item.steps ≠ []) :
    settle b.tables before (linksOf b (written rest)) = before ++ rest := by
  induction rest generalizing before with
  | nil => simp [written, linksOf, Stage.settle_nil]
  | cons item rest ih =>
    obtain ⟨hitem, hothers⟩ := List.forall_mem_cons.1 hsteps
    have h' : ∀ front first after, before ++ [item] ++ rest = front ++ first :: after →
        first.Chained b front := by
      rwa [List.append_assoc]
    obtain ⟨l, links, hlinks, first, grown, hseed, hpass⟩ :=
      seed_chained hids (h before item rest rfl) hitem
    have hall : linksOf b (written (item :: rest)) = l :: (links ++ linksOf b (written rest)) := by
      rw [written, List.flatMap_cons, linksOf_append, hlinks, List.cons_append]
      rfl
    have hwaiting := waiting_of_chained h
    rw [hall] at hwaiting ⊢
    have hrest := waiting_of_chained h'
    have hturn : pass (before ++ [first]) (links ++ linksOf b (written rest)) =
        (before ++ [item], linksOf b (written rest), grown || false) := by
      rw [pass_append, hpass, pass_waiting hrest]
      rfl
    rw [settle_idle (pass_waiting hwaiting), hseed, settle_pass hturn hrest, ih h' hothers,
      List.append_assoc]
    rfl

/-! ## The whole clause -/

/-- Tables that no join put in place come behind, in the order in which they are drawn. -/
theorem foldl_addAlone_eq {tables : List Table} (hids : (tables.map (·.id)).Nodup)
    (items : List FromItem) : tables.foldl addAlone items =
      items ++ (tables.filter (·.id ∉ placed items)).map fun t => ⟨t, []⟩ := by
  induction tables generalizing items with
  | nil => simp
  | cons t rest ih =>
    obtain ⟨ht, hrest⟩ := List.nodup_cons.1 hids
    rw [List.foldl_cons, ih hrest, addAlone]
    by_cases hplaced : t.id ∈ placed items
    · rw [if_pos (place?_isSome.2 hplaced), List.filter_cons_of_neg (by simpa using hplaced)]
    · have hkept : rest.filter (·.id ∉ placed (items ++ [⟨t, []⟩])) =
          rest.filter (·.id ∉ placed items) := by
        refine List.filter_congr fun v hv => ?_
        have hne : v.id ≠ t.id := fun heq => ht (List.mem_map.2 ⟨v, hv, heq⟩)
        simp [placed_append, placed_singleton, FromItem.placed_eq, hne]
      rw [if_neg (place?_isSome.not.2 hplaced), List.filter_cons_of_pos (by simpa using hplaced),
        hkept, List.map_cons, List.append_assoc]
      rfl

/-- **A block drawn as its items are written is arranged in these items.** -/
theorem fromItems_of_chained {first : FromItem} {rest : List FromItem} {alone : List Table}
    (hids : (b.tables.map (·.id)).Nodup)
    (htables : b.tables = (first :: rest).flatMap FromItem.tables ++ alone)
    (hjoins : b.joins = written (first :: rest))
    (h : ∀ front item after, first :: rest = front ++ item :: after → item.Chained b front)
    (hsteps : ∀ item ∈ rest, item.steps ≠ []) :
    fromItems b = first :: rest ++ alone.map fun t => ⟨t, []⟩ := by
  have hfirst := h [] first rest rfl
  have hjoined : joinedItems b = first :: rest := by
    have hstart : (b.tables.take 1).map (fun t => (⟨t, []⟩ : FromItem)) = [⟨first.base, []⟩] := by
      rw [htables]
      rfl
    have hrest : ∀ l ∈ linksOf b (written rest),
        l.source.id ∉ placed [first] ∧ l.target.id ∉ placed [first] := waiting_of_chained h
    obtain ⟨grown, hpass⟩ := pass_item hids hfirst
    rw [List.nil_append, List.nil_append] at hpass
    have hturn : pass [⟨first.base, []⟩] (linksOf b first.written ++ linksOf b (written rest)) =
        ([first], linksOf b (written rest), grown || false) := by
      rw [pass_append, hpass, pass_waiting hrest]
      rfl
    have hall : linksOf b (written (first :: rest)) =
        linksOf b first.written ++ linksOf b (written rest) := by
      rw [written, List.flatMap_cons, linksOf_append]
      rfl
    rw [joinedItems, hstart, links_eq_linksOf, hjoins, hall, settle_pass hturn hrest,
      settle_rebuilt hids h hsteps]
    rfl
  have hfound {id : EntityId} (hid : id ∈ placed (first :: rest)) : ∃ t, b.table? id = some t := by
    rw [placed_eq_map] at hid
    obtain ⟨t, ht, rfl⟩ := List.mem_map.1 hid
    exact ⟨t, find?_of_nodup hids (by rw [htables]; exact List.mem_append_left _ ht)⟩
  have hresolved : b.joins.filter (fun j => (link? b j).isNone) = [] := by
    refine List.filter_eq_nil_iff.2 fun j hj => ?_
    rw [hjoins] at hj
    obtain ⟨item, hitem, hwritten⟩ := List.mem_flatMap.1 hj
    obtain ⟨front, after, hsplit⟩ := List.append_of_mem hitem
    obtain ⟨hs, ht⟩ := (h front item after hsplit).ends_placed hwritten
    obtain ⟨source, hsource⟩ := hfound (List.mem_flatMap.2 ⟨item, hitem, hs⟩)
    obtain ⟨target, htarget⟩ := hfound (List.mem_flatMap.2 ⟨item, hitem, ht⟩)
    simp [link?, hsource, htarget]
  have halone : b.tables.filter (·.id ∉ placed (first :: rest)) = alone := by
    have hapart := hids
    rw [htables, List.map_append] at hapart
    have hnew := (List.nodup_append.1 hapart).2.2
    rw [htables, List.filter_append, List.filter_eq_nil_iff.2, List.filter_eq_self.2,
      List.nil_append]
    · intro t ht
      simp only [decide_eq_true_eq, placed_eq_map]
      exact fun hmem => hnew _ hmem _ (List.mem_map_of_mem ht) rfl
    · intro t ht
      simp only [decide_eq_true_eq, not_not, placed_eq_map]
      exact List.mem_map_of_mem ht
  change (b.joins.filter fun j => (link? b j).isNone).foldl addUnresolved
    (b.tables.foldl addAlone (joinedItems b)) = _
  rw [hresolved, hjoined, foldl_addAlone_eq hids, halone]
  rfl

/-! ## The items of a block -/

/-- Behind the first item, joins begin all items that they make. -/
theorem joinedItems_cons (h : b.tables ≠ []) :
    ∃ first rest, joinedItems b = first :: rest ∧ ∀ item ∈ rest, item.steps ≠ [] := by
  have hmodify : ∀ {items : List FromItem} {n : Nat} {f : FromItem → FromItem},
      (∀ item, item.steps ≠ [] → (f item).steps ≠ []) →
        (∃ first rest, items = first :: rest ∧ ∀ item ∈ rest, item.steps ≠ []) →
          ∃ first rest, items.modify n f = first :: rest ∧ ∀ item ∈ rest, item.steps ≠ [] := by
    rintro _ n f hf ⟨first, rest, rfl, hrest⟩
    cases n with
    | zero => exact ⟨f first, rest, rfl, hrest⟩
    | succ n =>
      refine ⟨first, rest.modify n f, rfl, fun item hitem => ?_⟩
      rcases mem_modify hitem with hitem | ⟨other, hother, rfl⟩
      · exact hrest item hitem
      · exact hf other (hrest other hother)
  refine Stage.settle_induction
    (P := fun items => ∃ first rest, items = first :: rest ∧ ∀ item ∈ rest, item.steps ≠ [])
    ?_ ?_ ?_
  · intro items l next grown hitems hattach
    unfold attach? at hattach
    split at hattach <;> cases hattach
    · exact hmodify (fun item _ => by simp) hitems
    · exact hmodify (fun item _ => by simp) hitems
    · unfold addCondition
      split
      · exact hitems
      · exact hmodify (fun item hsteps => by simpa [List.modify_eq_nil_iff] using hsteps) hitems
  · rintro _ l ⟨first, rest, rfl, hrest⟩
    refine ⟨first, _, List.cons_append, fun item hitem => ?_⟩
    rcases List.mem_append.1 hitem with hitem | hitem
    · exact hrest item hitem
    · rw [List.mem_singleton.1 hitem]
      exact List.cons_ne_nil _ _
  · obtain ⟨t, rest, htables⟩ := List.exists_cons_of_ne_nil h
    exact ⟨⟨t, []⟩, [], by rw [htables]; rfl, by simp⟩

theorem FromItem.tables_leveled (base : Table) (steps : List JoinStep) :
    (FromItem.mk base (steps.map JoinStep.leveled)).tables = (FromItem.mk base steps).tables := by
  simp only [FromItem.tables, List.filterMap_map]
  rfl

theorem placed_leveled (items : List FromItem) :
    placed (items.map FromItem.leveled) = placed items := by
  rw [placed_eq_map, placed_eq_map, List.flatMap_map]
  simp only [FromItem.leveled, FromItem.tables_leveled]

/-- Leveled, an item that joins made is chained, in whatever block draws its tables in order. -/
theorem chained_leveled {b' : Block} {items before after : List FromItem} (h : Arranged b items)
    (hbring : AllBring items) (hsplit : items = before ++ item :: after)
    (hdrawn : item.tables.Sublist b'.tables) :
    item.leveled.Chained b' (before.map FromItem.leveled) := by
  have hitem : item ∈ items := by simp [hsplit]
  have hnodup : (placed (before ++ [item])).Nodup := by
    refine h.nodup.sublist ?_
    rw [hsplit, placed_append, placed_append, placed_singleton]
    exact (List.sublist_append_left item.placed (placed after)).append_left _
  refine ⟨?_, ?_, fun front' s' after' hsteps => ?_⟩
  · rwa [FromItem.leveled, FromItem.tables_leveled]
  · rwa [← List.map_singleton, ← List.map_append, placed_leveled]
  · obtain ⟨front, l, hfront, rfl, hl⟩ := List.map_eq_append_iff.1 hsteps
    obtain ⟨s, after, rfl, rfl, rfl⟩ := List.map_eq_cons_iff.1 hl
    have hs : s ∈ item.steps := by simp [hfront]
    obtain ⟨t, ht⟩ := Option.isSome_iff_exists.1 (hbring item hitem s hs)
    have hsound := (h.sound item hitem).steps s hs
    simp only [JoinStep.Sound, ht] at hsound
    obtain ⟨⟨j, hj, -⟩, htied⟩ := hsound
    refine ⟨t, ht, by simpa [JoinStep.leveled] using List.ne_nil_of_mem hj, ?_⟩
    intro j' hj'
    obtain ⟨j, hj, rfl⟩ := List.mem_map.1 hj'
    obtain ⟨a, ha, hties⟩ := htied j hj
    have hplaced : item.placed = (FromItem.mk item.base front).placed ++
        t.id :: (after.filterMap (·.joined)).map (·.id) := by
      rw [FromItem.placed, show item = ⟨item.base, item.steps⟩ from rfl, hfront,
        FromItem.tables_cons ht, List.map_append]
      rfl
    rw [placed_append, placed_singleton, hplaced] at hnodup
    rw [hplaced] at ha
    obtain ⟨u, hu, rfl⟩ := List.mem_map.1
      (mem_of_pair_sublist (List.nodup_append.1 hnodup).2.1 ha)
    refine ⟨rfl, u, ?_, hties⟩
    rwa [FromItem.leveled, FromItem.tables_leveled]

/-- The items of a block whose joins all connect two of its tables: those that the joins make, and
behind them the tables that are left. -/
theorem fromItems_of_connects (hids : (b.tables.map (·.id)).Nodup)
    (hjoins : ∀ j ∈ b.joins, ∃ s t, j.Connects b s t) :
    ∃ alone : List Table, fromItems b = joinedItems b ++ alone.map fun t => ⟨t, []⟩ := by
  have hresolved : b.joins.filter (fun j => (link? b j).isNone) = [] := by
    refine List.filter_eq_nil_iff.2 fun j hj => ?_
    obtain ⟨s, t, hconnects⟩ := hjoins j hj
    simp [(connects_iff.1 hconnects).1]
  refine ⟨b.tables.filter (·.id ∉ placed (joinedItems b)), ?_⟩
  rw [← foldl_addAlone_eq hids]
  change (b.joins.filter fun j => (link? b j).isNone).foldl addUnresolved
    (b.tables.foldl addAlone (joinedItems b)) = _
  rw [hresolved]
  rfl

theorem flatMap_tables_leveled (items : List FromItem) :
    (items.map FromItem.leveled).flatMap FromItem.tables = items.flatMap FromItem.tables := by
  rw [List.flatMap_map]
  simp only [FromItem.leveled, FromItem.tables_leveled]

theorem flatMap_tables_alone (alone : List Table) :
    (alone.map fun t => (⟨t, []⟩ : FromItem)).flatMap FromItem.tables = alone := by
  rw [List.flatMap_map]
  exact List.flatMap_singleton' alone

theorem leveled_alone (alone : List Table) :
    (alone.map fun t => (⟨t, []⟩ : FromItem)).map FromItem.leveled = alone.map fun t => ⟨t, []⟩ :=
  List.map_map

theorem written_alone (alone : List Table) :
    written (alone.map fun t => (⟨t, []⟩ : FromItem)) = [] := by
  rw [written, List.flatMap_map]
  exact List.flatMap_eq_nil_iff.2 fun t _ => rfl

/-- The rearranged block has the items of the block, with leveled steps. -/
theorem fromItems_rearranged (hids : (b.tables.map (·.id)).Nodup)
    (hjoins : ∀ j ∈ b.joins, ∃ s t, j.Connects b s t) :
    fromItems (rearranged b) = (fromItems b).map FromItem.leveled := by
  by_cases hne : b.tables = []
  · have hnone := fromItems_of_no_tables hne
    have hempty : (rearranged b).tables = [] := by simp [rearranged, hnone]
    rw [hnone, fromItems_of_no_tables hempty]
    rfl
  obtain ⟨alone, hitems⟩ := fromItems_of_connects hids hjoins
  obtain ⟨first, rest, hjoined, hrest⟩ := joinedItems_cons hne
  have harranged := (joinedItems_arranged b).1
  have hbring := allBring_joinedItems b
  have htables : (rearranged b).tables =
      (first.leveled :: rest.map FromItem.leveled).flatMap FromItem.tables ++ alone := by
    change (fromItems b).flatMap FromItem.tables = _
    rw [hitems, List.flatMap_append, flatMap_tables_alone, hjoined, ← List.map_cons,
      flatMap_tables_leveled]
  rw [hitems, List.map_append, leveled_alone, hjoined, List.map_cons]
  refine fromItems_of_chained ?_ htables ?_ ?_ ?_
  · exact ((tables_fromItems_perm hids).map _).nodup_iff.2 hids
  · change written ((fromItems b).map FromItem.leveled) = _
    rw [hitems, List.map_append, leveled_alone, written_append, written_alone, List.append_nil,
      hjoined, List.map_cons]
  · intro front' item' after' hsplit
    rw [← List.map_cons] at hsplit
    obtain ⟨before, l, hlist, rfl, hl⟩ := List.map_eq_append_iff.1 hsplit
    obtain ⟨item, after, rfl, rfl, rfl⟩ := List.map_eq_cons_iff.1 hl
    refine chained_leveled harranged hbring (hjoined.trans hlist) ?_
    rw [htables, ← List.map_cons, flatMap_tables_leveled, hlist, List.flatMap_append,
      List.flatMap_cons, List.append_assoc, List.append_assoc]
    exact (List.sublist_append_left _ _).trans (List.sublist_append_right _ _)
  · intro item' hitem'
    obtain ⟨item, hitem, rfl⟩ := List.mem_map.1 hitem'
    simpa [FromItem.leveled] using hrest item hitem

/-- A rearranged block names its tables as before. -/
theorem tableName_rearranged (hids : (b.tables.map (·.id)).Nodup) (id : EntityId) :
    (rearranged b).tableName id = b.tableName id := by
  have hperm := tables_fromItems_perm hids
  have hids' : ((rearranged b).tables.map (·.id)).Nodup := (hperm.map _).nodup_iff.2 hids
  have hsame : (rearranged b).table? id = b.table? id := by
    cases hfound : b.table? id with
    | none =>
      refine List.find?_eq_none.2 fun t ht => ?_
      exact List.find?_eq_none.1 hfound t (hperm.mem_iff.1 ht)
    | some t =>
      have hid := List.find?_some (p := fun t : Table => t.id = id) hfound
      rw [← of_decide_eq_true hid]
      exact find?_of_nodup hids' (hperm.mem_iff.2 (List.mem_of_find?_eq_some hfound))
  rw [Block.tableName, hsame, Block.tableName]

/-- A leveled item of the rearranged block is written as the item of the block. -/
theorem fromItem_leveled (hids : (b.tables.map (·.id)).Nodup) (l : Layout) (item : FromItem) :
    fromItem l (rearranged b) item.leveled = fromItem l b item := by
  have hstep : ∀ s : JoinStep, joinStep (rearranged b) s.leveled = joinStep b s := by
    intro s
    simp only [joinStep, JoinStep.leveled, List.map_map, Function.comp_def, joinCondition,
      tableName_rearranged hids]
    rfl
  simp only [fromItem, FromItem.leveled, List.map_map, Function.comp_def, hstep]

/-- **The arrangement of a `FROM` clause is a normal form.**  In a block of different tables whose
joins all connect two of them, tables and joins can be drawn in the order in which they are written,
the joins with the kinds of their steps: the items are the same, with the same steps in the same
order, of the same kinds and with the same conditions, and so are the texts that are written.
Rearranging the block once more changes nothing. -/
theorem rearranged_normal (b : Block) (hids : (b.tables.map (·.id)).Nodup)
    (hjoins : ∀ j ∈ b.joins, ∃ s t, j.Connects b s t) :
    fromItems (rearranged b) = (fromItems b).map FromItem.leveled ∧
      (∀ l, (fromItems (rearranged b)).map (fromItem l (rearranged b)) =
        (fromItems b).map (fromItem l b)) ∧
      rearranged (rearranged b) = rearranged b := by
  have hitems := fromItems_rearranged hids hjoins
  refine ⟨hitems, fun l => ?_, ?_⟩
  · rw [hitems, List.map_map]
    exact List.map_congr_left fun item _ => fromItem_leveled hids l item
  · have htwice : ∀ item : FromItem, item.leveled.leveled = item.leveled := by
      intro item
      simp [FromItem.leveled, JoinStep.leveled, Function.comp_def]
    simp only [rearranged] at hitems ⊢
    rw [hitems, flatMap_tables_leveled, List.map_map]
    simp only [Function.comp_def, htwice]

/-- Five tables, of which the first stands alone.  The first join waits for the second one, the
third one has another kind than the step that carries it, and the last one begins an item. -/
def entangled : Block :=
  { Block.empty with
    tables := [bareTable 0 "a", bareTable 1 "b", bareTable 2 "c", bareTable 3 "d", bareTable 4 "e"]
    joins := [{ bareJoin 5 2 3 with kind := .left }, bareJoin 6 3 2, bareJoin 7 4 1,
      { bareJoin 8 1 2 with kind := .full }] }

theorem rearranged_normal_entangled :
    (entangled.tables.map (·.id)).Nodup ∧
      (∀ j ∈ entangled.joins, ∃ s t, j.Connects entangled s t) ∧
      (rearranged entangled).tables.map (·.name) = ["a", "c", "d", "b", "e"] ∧
      ((fromItems (rearranged entangled)).map fun item => item.steps.map (·.kind)) =
        [[], [.left, .full, .inner]] := by
  have hids : (entangled.tables.map (·.id)).Nodup := by decide +kernel
  have hjoins : ∀ j ∈ entangled.joins, ∃ s t, j.Connects entangled s t := by
    simp only [entangled, List.forall_mem_cons, List.not_mem_nil, false_imp_iff, implies_true,
      and_true]
    refine ⟨⟨bareTable 2 "c", bareTable 3 "d", ?_⟩, ⟨bareTable 3 "d", bareTable 2 "c", ?_⟩,
      ⟨bareTable 4 "e", bareTable 1 "b", ?_⟩, bareTable 1 "b", bareTable 2 "c", ?_⟩
    all_goals exact ⟨by decide +kernel, by decide +kernel, by decide +kernel⟩
  obtain ⟨hitems, -, -⟩ := rearranged_normal entangled hids hjoins
  refine ⟨hids, hjoins, by decide +kernel, ?_⟩
  rw [hitems]
  decide +kernel

end QueryCanvas.Sql
