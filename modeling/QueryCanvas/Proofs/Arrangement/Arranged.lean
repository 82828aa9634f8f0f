import QueryCanvas.Proofs.Arrangement.Places

/-!
# What holds of the items of a `FROM` clause

While joins are put in place, only the last item grows: the joins that still wait reach no table of
an item before it.  So each step that brings in a table ties it to tables before it in the same
item, and every join that connects two different tables is written once.
-/

set_option autoImplicit false

namespace QueryCanvas

/-- The join connects two tables, whichever of them is its source. -/
def Join.Ties (j : Join) (a b : EntityId) : Prop :=
  (j.sourceTable = a ∧ j.targetTable = b) ∨ (j.sourceTable = b ∧ j.targetTable = a)

theorem Join.Ties.symm {j : Join} {a b : EntityId} (h : j.Ties a b) : j.Ties b a := Or.symm h

/-- A join connects only two tables. -/
theorem Join.Ties.eq_or_eq {j : Join} {a b c d : EntityId} (h : j.Ties a b) (h' : j.Ties c d) :
    (a = c ∧ b = d) ∨ (a = d ∧ b = c) := by
  rcases h with ⟨rfl, rfl⟩ | ⟨rfl, rfl⟩
  · exact h'
  · exact h'.symm.imp And.symm And.symm

namespace Sql

variable {b : Block} {item : FromItem} {before : List FromItem} {l : Link}

/-- A link between two different tables of a block. -/
structure Link.Fits (b : Block) (l : Link) : Prop where
  source : l.source ∈ b.tables
  target : l.target ∈ b.tables
  ties : l.join.Ties l.source.id l.target.id
  distinct : l.source.id ≠ l.target.id

/-- A step that brings in a table has a condition of its own kind, and all its conditions tie the
table to tables before it.  A step without a table stands for joins that lead nowhere. -/
def JoinStep.Sound (b : Block) (order : List EntityId) (s : JoinStep) : Prop :=
  match s.joined with
  | some t => (∃ j ∈ s.conditions, j.kind = s.kind) ∧
      ∀ j ∈ s.conditions, ∃ a, List.Sublist [a, t.id] order ∧ j.Ties a t.id
  | none => ∀ j ∈ s.conditions, link? b j = none

theorem JoinStep.Sound.mono {order order' : List EntityId} {s : JoinStep} (h : s.Sound b order)
    (hsub : order.Sublist order') : s.Sound b order' := by
  unfold JoinStep.Sound at h ⊢
  split at h
  · obtain ⟨hkind, htied⟩ := h
    refine ⟨hkind, fun j hj => ?_⟩
    obtain ⟨a, ha, hties⟩ := htied j hj
    exact ⟨a, ha.trans hsub, hties⟩
  · exact h

/-- An item of tables of a block, with sound steps. -/
structure FromItem.Sound (b : Block) (item : FromItem) : Prop where
  tables : ∀ t ∈ item.tables, t ∈ b.tables
  steps : ∀ s ∈ item.steps, s.Sound b item.placed

/-! ## One item -/

namespace FromItem

/-- The item with a further step. -/
def addStep (item : FromItem) (step : JoinStep) : FromItem :=
  { item with steps := item.steps ++ [step] }

/-- The item with a further condition of the step of the given number. -/
def tie (item : FromItem) (k : Nat) (join : Join) : FromItem :=
  { item with
    steps := item.steps.modify k fun s => { s with conditions := s.conditions ++ [join] } }

theorem placed_addStep (item : FromItem) (join : Join) (t : Table) :
    (item.addStep (stepOf join (some t))).placed = item.placed ++ [t.id] := by
  simp [placed_eq, addStep, stepOf]

theorem written_addStep (item : FromItem) (step : JoinStep) :
    (item.addStep step).written = item.written ++ step.conditions := by
  simp [written, addStep]

theorem sound_base {t : Table} (h : t ∈ b.tables) :
    FromItem.Sound b { base := t, steps := [] } :=
  ⟨fun u hu => List.mem_singleton.1 hu ▸ h, by simp⟩

/-- A step brings in a table that a join ties to a table in place. -/
theorem Sound.bring (h : item.Sound b) {join : Join} {a : EntityId} {t : Table}
    (ha : a ∈ item.placed) (ht : t ∈ b.tables) (hties : join.Ties a t.id) :
    (item.addStep (stepOf join (some t))).Sound b := by
  refine ⟨fun u hu => ?_, fun s hs => ?_⟩
  · have htables : (item.addStep (stepOf join (some t))).tables = item.tables ++ [t] := by
      simp [FromItem.tables, addStep, stepOf]
    rw [htables] at hu
    rcases List.mem_append.1 hu with hu | hu
    · exact h.tables u hu
    · exact List.mem_singleton.1 hu ▸ ht
  · rw [placed_addStep]
    rcases List.mem_append.1 hs with hs | hs
    · exact (h.steps s hs).mono (List.sublist_append_left _ _)
    · rw [List.mem_singleton.1 hs]
      refine ⟨⟨join, List.mem_singleton_self join, rfl⟩, fun j hj => ?_⟩
      rw [List.mem_singleton.1 hj]
      exact ⟨a, (List.singleton_sublist.2 ha).append (List.Sublist.refl _), hties⟩

/-- A join between two tables in place adds its condition to the step of the later one. -/
theorem Sound.tie (h : item.Sound b) {join : Join} {a c : EntityId} {i k : Nat} (hne : a ≠ c)
    (ha : item.place? a = some i) (hc : item.place? c = some (k + 1)) (hle : i ≤ k + 1)
    (hties : join.Ties a c) :
    (item.tie k join).Sound b ∧ (item.tie k join).placed = item.placed ∧
      (item.tie k join).written.Perm (join :: item.written) := by
  obtain ⟨hzero, -⟩ | ⟨first, s, last, t, hsteps, hk, ht, hid⟩ := exists_of_place? hc
  · cases hzero
  · obtain rfl : k = first.length := Nat.succ.inj hk
    have htied : (item.tie first.length join).steps =
        first ++ { s with conditions := s.conditions ++ [join] } :: last := by
      rw [FromItem.tie, hsteps, modify_append]
    have hplaced : (item.tie first.length join).placed = item.placed := by
      rw [placed_eq, placed_eq, htied, hsteps]
      simp [FromItem.tie, List.filterMap_cons]
    have htables : (item.tie first.length join).tables = item.tables := by
      rw [FromItem.tables, FromItem.tables, htied, hsteps]
      simp [FromItem.tie, List.filterMap_cons]
    refine ⟨⟨?_, fun r hr => ?_⟩, hplaced, ?_⟩
    · rw [htables]
      exact h.tables
    · rw [hplaced]
      rw [htied] at hr
      have hold : ∀ r ∈ first ++ s :: last, r.Sound b item.placed := hsteps ▸ h.steps
      rcases List.mem_append.1 hr with hr | hr
      · exact hold r (List.mem_append_left _ hr)
      · rcases List.mem_cons.1 hr with rfl | hr
        · have hs := hold s (by simp)
          simp only [JoinStep.Sound, ht] at hs ⊢
          obtain ⟨⟨j, hj, hkind⟩, hall⟩ := hs
          refine ⟨⟨j, List.mem_append_left _ hj, hkind⟩, fun j hj => ?_⟩
          rcases List.mem_append.1 hj with hj | hj
          · exact hall j hj
          · rw [List.mem_singleton.1 hj, hid]
            exact ⟨a, pair_sublist hne ha hc hle, hties⟩
        · exact hold r (by simp [hr])
    · rw [written, written, htied, hsteps]
      have hmiddle : (first.flatMap (·.conditions) ++ s.conditions ++
          join :: last.flatMap (·.conditions)).Perm
          (join :: (first.flatMap (·.conditions) ++ s.conditions ++
            last.flatMap (·.conditions))) := List.perm_middle
      simpa using hmiddle

end FromItem

/-! ## The last item -/

theorem placed_append (items items' : List FromItem) :
    placed (items ++ items') = placed items ++ placed items' := List.flatMap_append

theorem placed_singleton (item : FromItem) : placed [item] = item.placed := by
  simp [placed]

theorem written_append (items items' : List FromItem) :
    written (items ++ items') = written items ++ written items' := List.flatMap_append

theorem written_singleton (item : FromItem) : written [item] = item.written := by
  simp [written]

/-- A table that stands in no item before the last one is looked up in the last one. -/
theorem place?_last {id : EntityId} (h : id ∉ placed before) :
    place? (before ++ [item]) id = (item.place? id).map (⟨before.length, ·⟩) := by
  have hfrom : ∀ n, placeFrom? id n (before ++ [item]) =
      (item.place? id).map (⟨n + before.length, ·⟩) := by
    induction before with
    | nil =>
      intro n
      simp only [List.nil_append, placeFrom?]
      cases item.place? id <;> rfl
    | cons first rest ih =>
      intro n
      have hfirst : first.place? id = none := by
        rw [← Option.not_isSome_iff_eq_none, FromItem.place?_isSome]
        exact fun hmem => h (List.mem_append_left _ hmem)
      have hrest : id ∉ placed rest := fun hmem => h (List.mem_append_right _ hmem)
      rw [List.cons_append, placeFrom?, hfirst]
      show placeFrom? id (n + 1) (rest ++ [item]) = _
      rw [ih hrest, List.length_cons, Nat.add_right_comm, Nat.add_assoc]
  rw [place?, hfrom, Nat.zero_add]

theorem addStep_last (step : JoinStep) :
    addStep (before ++ [item]) before.length step = before ++ [item.addStep step] := by
  rw [addStep, modify_append]
  rfl

theorem addCondition_last (k : Nat) (join : Join) :
    addCondition (before ++ [item]) ⟨before.length, k + 1⟩ join = before ++ [item.tie k join] :=
  modify_append _ before item []

/-- A link that reaches no item before the last one is put in place there, or waits. -/
theorem attach?_last (hsource : l.source.id ∉ placed before)
    (htarget : l.target.id ∉ placed before) :
    attach? (before ++ [item]) l =
      match item.place? l.source.id, item.place? l.target.id with
      | some _, none => some (before ++ [item.addStep (stepOf l.join (some l.target))], true)
      | none, some _ => some (before ++ [item.addStep (stepOf l.join (some l.source))], true)
      | some i, some j =>
        some (addCondition (before ++ [item]) ⟨before.length, max i j⟩ l.join, false)
      | none, none => none := by
  rw [attach?, place?_last hsource, place?_last htarget]
  cases item.place? l.source.id with
  | none =>
    cases item.place? l.target.id with
    | none => rfl
    | some j => simp only [Option.map_none, Option.map_some, addStep_last]
  | some i =>
    cases item.place? l.target.id with
    | none => simp only [Option.map_none, Option.map_some, addStep_last]
    | some j =>
      simp only [Option.map_some, Place.le, Nat.lt_irrefl, decide_false, Bool.false_or,
        decide_true, Bool.true_and, decide_eq_true_eq]
      by_cases h : j ≤ i
      · rw [if_pos h, Nat.max_eq_left h]
      · rw [if_neg h, Nat.max_eq_right (Nat.le_of_not_le h)]

/-- A link that fits into an arrangement of which the last item is given: it reaches no item before
that one. -/
structure Link.Waits (b : Block) (before : List FromItem) (l : Link) : Prop extends l.Fits b where
  sourceLast : l.source.id ∉ placed before
  targetLast : l.target.id ∉ placed before

theorem FromItem.base_of_place? {id : EntityId} (h : item.place? id = some 0) :
    item.base.id = id := by
  obtain ⟨-, hbase⟩ | ⟨_, _, _, _, -, hplace, -⟩ := exists_of_place? h
  · exact hbase
  · cases hplace

/-- A join between two tables of an item adds its condition to the step of the later one. -/
theorem FromItem.Sound.tieLater (h : item.Sound b) {join : Join} {a c : EntityId} {i j : Nat}
    (hne : a ≠ c) (ha : item.place? a = some i) (hc : item.place? c = some j)
    (hties : join.Ties a c) : ∃ k, max i j = k + 1 ∧ (item.tie k join).Sound b ∧
      (item.tie k join).placed = item.placed ∧
      (item.tie k join).written.Perm (join :: item.written) := by
  cases hlater : max i j with
  | zero =>
    obtain rfl : i = 0 := by omega
    obtain rfl : j = 0 := by omega
    exact absurd ((base_of_place? ha).symm.trans (base_of_place? hc)) hne
  | succ k =>
    refine ⟨k, rfl, ?_⟩
    rcases Nat.le_total i j with hle | hle
    · obtain rfl : j = k + 1 := by omega
      exact h.tie hne ha hc hle hties
    · obtain rfl : i = k + 1 := by omega
      exact h.tie hne.symm hc ha hle hties.symm

/-- A step that brings in a table of a link that waits. -/
theorem FromItem.Sound.bringLast (h : item.Sound b) (hnodup : (Sql.placed (before ++ [item])).Nodup)
    {join : Join} {a : EntityId} {t : Table} (ha : a ∈ item.placed) (ht : t ∈ b.tables)
    (hnew : item.place? t.id = none) (hlast : t.id ∉ Sql.placed before)
    (hties : join.Ties a t.id) :
    (item.addStep (stepOf join (some t))).Sound b ∧
      (Sql.placed (before ++ [item.addStep (stepOf join (some t))])).Nodup ∧
      (item.addStep (stepOf join (some t))).written.Perm (join :: item.written) := by
  refine ⟨h.bring ha ht hties, ?_, ?_⟩
  · rw [placed_append, placed_singleton] at hnodup ⊢
    rw [placed_addStep, ← List.append_assoc]
    refine List.nodup_append.2 ⟨hnodup, by simp, fun x hx y hy => ?_⟩
    rw [List.mem_singleton.1 hy]
    rintro rfl
    rcases List.mem_append.1 hx with hx | hx
    · exact hlast hx
    · have hsome := place?_isSome.2 hx
      rw [hnew] at hsome
      cases hsome
  · rw [written_addStep]
    exact List.perm_append_singleton _ _

/-- What comes of putting a link in place. -/
theorem attach?_sound (hl : l.Waits b before) (hitem : item.Sound b)
    (hnodup : (placed (before ++ [item])).Nodup) :
    match attach? (before ++ [item]) l with
    | none => l.source.id ∉ item.placed ∧ l.target.id ∉ item.placed
    | some (items, grown) => ∃ item', items = before ++ [item'] ∧ item'.Sound b ∧
        (placed (before ++ [item'])).Nodup ∧ item'.written.Perm (l.join :: item.written) ∧
        (grown = false → item'.placed = item.placed) := by
  have hmem {id : EntityId} {i : Nat} (h : item.place? id = some i) : id ∈ item.placed :=
    FromItem.place?_isSome.1 (by rw [h]; rfl)
  rw [attach?_last hl.sourceLast hl.targetLast]
  cases hs : item.place? l.source.id with
  | none =>
    cases ht : item.place? l.target.id with
    | none =>
      rw [← FromItem.place?_isSome, ← FromItem.place?_isSome, hs, ht]
      exact ⟨Bool.false_ne_true, Bool.false_ne_true⟩
    | some j =>
      obtain ⟨hsound, hnodup', hwritten⟩ :=
        hitem.bringLast hnodup (hmem ht) hl.source hs hl.sourceLast hl.ties.symm
      exact ⟨_, rfl, hsound, hnodup', hwritten, nofun⟩
  | some i =>
    cases ht : item.place? l.target.id with
    | none =>
      obtain ⟨hsound, hnodup', hwritten⟩ :=
        hitem.bringLast hnodup (hmem hs) hl.target ht hl.targetLast hl.ties
      exact ⟨_, rfl, hsound, hnodup', hwritten, nofun⟩
    | some j =>
      obtain ⟨k, hk, hsound, hplaced, hwritten⟩ := hitem.tieLater hl.distinct hs ht hl.ties
      refine ⟨item.tie k l.join, ?_, hsound, ?_, hwritten, fun _ => hplaced⟩
      · rw [hk, addCondition_last]
      · rw [placed_append, placed_singleton] at hnodup ⊢
        rw [hplaced]
        exact hnodup

/-! ## Passes -/

/-- What comes of a pass over the links that wait. -/
structure Passed (b : Block) (before : List FromItem) (item : FromItem) (links : List Link)
    (item' : FromItem) (waiting : List Link) (grown : Bool) : Prop where
  sound : item'.Sound b
  nodup : (placed (before ++ [item'])).Nodup
  written : (item'.written ++ waiting.map (·.join)).Perm (item.written ++ links.map (·.join))
  fewer : waiting.Sublist links
  /-- A pass in which no table was brought in leaves only links that reach nothing in place. -/
  idle : grown = false → item'.placed = item.placed ∧
    ∀ l ∈ waiting, l.source.id ∉ item.placed ∧ l.target.id ∉ item.placed

theorem pass_sound {links : List Link} (hlinks : ∀ l ∈ links, l.Waits b before)
    (hitem : item.Sound b) (hnodup : (placed (before ++ [item])).Nodup) :
    ∃ item', (pass (before ++ [item]) links).1 = before ++ [item'] ∧
      Passed b before item links item' (pass (before ++ [item]) links).2.1
        (pass (before ++ [item]) links).2.2 := by
  induction links generalizing item with
  | nil =>
    exact ⟨item, rfl, hitem, hnodup, List.Perm.refl _, List.Sublist.refl _,
      fun _ => ⟨rfl, by simp [pass]⟩⟩
  | cons l rest ih =>
    obtain ⟨hl, hrest⟩ := List.forall_mem_cons.1 hlinks
    have hattach := attach?_sound hl hitem hnodup
    rw [pass]
    cases hcase : attach? (before ++ [item]) l with
    | none =>
      rw [hcase] at hattach
      obtain ⟨item', hitems, hpassed⟩ := ih hrest hitem hnodup
      refine ⟨item', hitems, hpassed.sound, hpassed.nodup, ?_, hpassed.fewer.cons_cons l,
        fun hidle => ?_⟩
      · rw [List.map_cons, List.map_cons]
        exact List.perm_middle.trans ((hpassed.written.cons l.join).trans List.perm_middle.symm)
      · obtain ⟨hplaced, hwaiting⟩ := hpassed.idle hidle
        exact ⟨hplaced, List.forall_mem_cons.2 ⟨hattach, hwaiting⟩⟩
    | some r =>
      obtain ⟨items, grown⟩ := r
      rw [hcase] at hattach
      obtain ⟨first, rfl, hsound, hnodup', hwritten, hkept⟩ := hattach
      obtain ⟨item', hitems, hpassed⟩ := ih hrest hsound hnodup'
      refine ⟨item', hitems, hpassed.sound, hpassed.nodup, ?_, hpassed.fewer.cons l,
        fun hidle => ?_⟩
      · rw [List.map_cons]
        exact hpassed.written.trans ((hwritten.append_right _).trans List.perm_middle.symm)
      · obtain ⟨hfirst, hidle⟩ := Bool.or_eq_false_iff.1 hidle
        obtain ⟨hplaced, hwaiting⟩ := hpassed.idle hidle
        rw [hkept hfirst] at hplaced hwaiting
        exact ⟨hplaced, hwaiting⟩

/-! ## All joins -/

/-- Items of tables of a block, each table at one place, with sound steps. -/
structure Arranged (b : Block) (items : List FromItem) : Prop where
  sound : ∀ item ∈ items, item.Sound b
  nodup : (placed items).Nodup

theorem Arranged.split (h : Arranged b (before ++ [item])) :
    item.Sound b ∧ (∀ first ∈ before, first.Sound b) ∧ (placed (before ++ [item])).Nodup :=
  ⟨h.sound item (by simp), fun first hfirst => h.sound first (by simp [hfirst]), h.nodup⟩

theorem Arranged.append (hbefore : ∀ first ∈ before, first.Sound b) (hitem : item.Sound b)
    (hnodup : (placed (before ++ [item])).Nodup) : Arranged b (before ++ [item]) := by
  refine ⟨fun first hfirst => ?_, hnodup⟩
  rcases List.mem_append.1 hfirst with hfirst | hfirst
  · exact hbefore first hfirst
  · exact List.mem_singleton.1 hfirst ▸ hitem

/-- The item that a link begins holds both of its tables. -/
theorem seed_eq (tables : List Table) (items : List FromItem) (hl : l.Fits b) :
    ∃ first, seed tables items l = items ++ [first] ∧ first.Sound b ∧
      first.placed.Perm [l.source.id, l.target.id] ∧ first.written = [l.join] := by
  have hbegin {base joined : Table} (hbase : base ∈ b.tables) (hjoined : joined ∈ b.tables)
      (hties : l.join.Ties base.id joined.id) :
      FromItem.Sound b { base, steps := [stepOf l.join (some joined)] } :=
    (FromItem.sound_base hbase).bring (by simp [FromItem.placed_eq]) hjoined hties
  unfold seed
  dsimp only
  split
  · exact ⟨_, rfl, hbegin hl.source hl.target hl.ties, List.Perm.refl _, rfl⟩
  · exact ⟨_, rfl, hbegin hl.target hl.source hl.ties.symm, List.Perm.swap _ _ _, rfl⟩

section Settle

variable {tables : List Table} {items next : List FromItem} {pending waiting : List Link}

theorem settle_done {grown : Bool} (h : pass items pending = (next, [], grown)) :
    settle tables items pending = next := by
  rw [settle]
  split <;> rename_i h' <;> rw [h] at h' <;> cases h'
  · rfl
  · rename_i hne
    exact (hne rfl).elim

theorem settle_grown (h : pass items pending = (next, waiting, true)) (hne : waiting ≠ []) :
    settle tables items pending = settle tables next waiting := by
  rw [settle]
  split <;> rename_i h' <;> rw [h] at h' <;> cases h'
  · exact absurd rfl hne
  · rfl

theorem settle_idle {rest : List Link} (h : pass items pending = (next, l :: rest, false)) :
    settle tables items pending = settle tables (seed tables next l) rest := by
  rw [settle]
  split <;> rename_i h' <;> rw [h] at h' <;> cases h'
  rfl

/-- A pass over items of which the last one can grow. -/
theorem pass_arranged (hitems : Arranged b (before ++ [item]))
    (hpending : ∀ l ∈ pending, l.Waits b before) {grown : Bool}
    (hpass : pass (before ++ [item]) pending = (next, waiting, grown)) :
    ∃ item', next = before ++ [item'] ∧ Arranged b next ∧
      (written next ++ waiting.map (·.join)).Perm
        (written (before ++ [item]) ++ pending.map (·.join)) ∧
      (∀ l ∈ waiting, l.Waits b before) ∧
      (grown = false → ∀ l ∈ waiting, l.Waits b (before ++ [item'])) := by
  obtain ⟨hitem, hbefore, hnodup⟩ := hitems.split
  obtain ⟨item', hnext, hpassed⟩ := pass_sound hpending hitem hnodup
  rw [hpass] at hnext hpassed
  obtain rfl : next = before ++ [item'] := hnext
  have hstill : ∀ l ∈ waiting, l.Waits b before := fun l hl => hpending l (hpassed.fewer.subset hl)
  refine ⟨item', rfl, Arranged.append hbefore hpassed.sound hpassed.nodup, ?_, hstill,
    fun hidle l hl => ?_⟩
  · rw [written_append, written_append, written_singleton, written_singleton, List.append_assoc,
      List.append_assoc]
    exact hpassed.written.append_left _
  · obtain ⟨hplaced, hwaiting⟩ := hpassed.idle hidle
    obtain ⟨hsource, htarget⟩ := hwaiting l hl
    refine ⟨(hstill l hl).toFits, ?_, ?_⟩ <;> rw [placed_append, placed_singleton, hplaced]
    · exact fun hmem => (List.mem_append.1 hmem).elim (hstill l hl).sourceLast hsource
    · exact fun hmem => (List.mem_append.1 hmem).elim (hstill l hl).targetLast htarget

/-- Beginning an item with a link that reaches nothing in place. -/
theorem seed_arranged (tables : List Table) (hitems : Arranged b items) (hl : l.Waits b items) :
    ∃ first, seed tables items l = items ++ [first] ∧ Arranged b (items ++ [first]) ∧
      (written (items ++ [first])).Perm (written items ++ [l.join]) := by
  obtain ⟨first, hseed, hfirst, hplaced, hwritten⟩ := seed_eq tables items hl.toFits
  refine ⟨first, hseed, Arranged.append hitems.sound hfirst ?_, ?_⟩
  · rw [placed_append, placed_singleton]
    refine List.nodup_append.2 ⟨hitems.nodup, hplaced.nodup_iff.2 (by simp [hl.distinct]), ?_⟩
    rintro x hx y hy rfl
    rcases List.mem_cons.1 (hplaced.mem_iff.1 hy) with rfl | hy
    · exact hl.sourceLast hx
    · exact hl.targetLast (List.mem_singleton.1 hy ▸ hx)
  · rw [written_append, written_singleton, hwritten]

/-- All joins are put in place, each once. -/
theorem settle_arranged : ∀ before item, items = before ++ [item] → Arranged b items →
    (∀ l ∈ pending, l.Waits b before) → Arranged b (settle tables items pending) ∧
      (written (settle tables items pending)).Perm (written items ++ pending.map (·.join)) := by
  induction items, pending using settle.induct tables with
  | case1 items pending next grown hpass =>
    rintro before item rfl hitems hpending
    obtain ⟨item', -, hnext, hwritten, -⟩ := pass_arranged hitems hpending hpass
    rw [settle_done hpass]
    exact ⟨hnext, by simpa using hwritten⟩
  | case2 items pending next waiting hne hpass ih =>
    rintro before item rfl hitems hpending
    obtain ⟨item', rfl, hnext, hwritten, hwaiting, -⟩ := pass_arranged hitems hpending hpass
    obtain ⟨harranged, hperm⟩ := ih before item' rfl hnext hwaiting
    rw [settle_grown hpass hne]
    exact ⟨harranged, hperm.trans hwritten⟩
  | case3 items pending next l rest hpass ih =>
    rintro before item rfl hitems hpending
    obtain ⟨item', rfl, hnext, hwritten, -, hidle⟩ := pass_arranged hitems hpending hpass
    obtain ⟨hl, hrest⟩ := List.forall_mem_cons.1 (hidle rfl)
    obtain ⟨first, hseed, hgrown, hseeded⟩ := seed_arranged tables hnext hl
    rw [settle_idle hpass]
    rw [hseed] at ih ⊢
    obtain ⟨harranged, hperm⟩ := ih _ first rfl hgrown hrest
    refine ⟨harranged, hperm.trans ((hseeded.append_right _).trans ?_)⟩
    rw [List.append_assoc]
    exact hwritten

end Settle

/-! ## The whole clause -/

/-- The links between different tables of a block. -/
def links (b : Block) : List Link :=
  (b.joins.filterMap (link? b)).filter fun l => l.source.id ≠ l.target.id

theorem join_of_link? {j : Join} (h : link? b j = some l) : l.join = j := by
  unfold link? at h
  split at h
  · cases h
    rfl
  · cases h

theorem mem_links :
    l ∈ links b ↔ l.join ∈ b.joins ∧ link? b l.join = some l ∧ l.source.id ≠ l.target.id := by
  simp only [links, List.mem_filter, List.mem_filterMap, decide_eq_true_eq]
  constructor
  · rintro ⟨⟨j, hj, hlink⟩, hdistinct⟩
    obtain rfl := join_of_link? hlink
    exact ⟨hj, hlink, hdistinct⟩
  · rintro ⟨hj, hlink, hdistinct⟩
    exact ⟨⟨l.join, hj, hlink⟩, hdistinct⟩

theorem fits_of_mem_links (h : l ∈ links b) : l.Fits b := by
  obtain ⟨-, hlink, hdistinct⟩ := mem_links.1 h
  unfold link? at hlink
  split at hlink
  · rename_i source target hsource htarget
    have hs := List.find?_some (p := fun t : Table => t.id = l.join.sourceTable) hsource
    have ht := List.find?_some (p := fun t : Table => t.id = l.join.targetTable) htarget
    refine ⟨?_, ?_, ?_, hdistinct⟩ <;> rw [← Option.some.inj hlink]
    · exact List.mem_of_find?_eq_some hsource
    · exact List.mem_of_find?_eq_some htarget
    · exact .inl ⟨(of_decide_eq_true hs).symm, (of_decide_eq_true ht).symm⟩
  · cases hlink

/-- Items with the same joins written, to which tables are added that no join put in place. -/
theorem addAlone_arranged {items : List FromItem} (hitems : Arranged b items) {t : Table}
    (ht : t ∈ b.tables) :
    Arranged b (addAlone items t) ∧ written (addAlone items t) = written items := by
  unfold addAlone
  split
  · exact ⟨hitems, rfl⟩
  · rename_i hnew
    rw [place?_isSome] at hnew
    have hsingle : FromItem.placed { base := t, steps := [] } = [t.id] := by
      simp [FromItem.placed_eq]
    refine ⟨Arranged.append hitems.sound (FromItem.sound_base ht) ?_, ?_⟩
    · rw [placed_append, placed_singleton, hsingle]
      refine List.nodup_append.2 ⟨hitems.nodup, by simp, ?_⟩
      rintro x hx y hy rfl
      exact hnew (List.mem_singleton.1 hy ▸ hx)
    · rw [written_append, written_singleton]
      simp [FromItem.written]

theorem foldl_addAlone_arranged {tables : List Table} {items : List FromItem}
    (hitems : Arranged b items) (htables : ∀ t ∈ tables, t ∈ b.tables) :
    Arranged b (tables.foldl addAlone items) ∧
      written (tables.foldl addAlone items) = written items := by
  induction tables generalizing items with
  | nil => exact ⟨hitems, rfl⟩
  | cons t rest ih =>
    obtain ⟨ht, hrest⟩ := List.forall_mem_cons.1 htables
    obtain ⟨halone, hsame⟩ := addAlone_arranged hitems ht
    obtain ⟨harranged, hwritten⟩ := ih halone hrest
    exact ⟨harranged, hwritten.trans hsame⟩

/-- A further step of one item: what it does to the tables in place, and to the joins written. -/
theorem addStep_nowhere (j : Join) (items : List FromItem) (n : Nat) :
    placed (addStep items n (stepOf j none)) = placed items ∧
      (written items).Sublist (written (addStep items n (stepOf j none))) ∧
      ∀ j' ∈ written (addStep items n (stepOf j none)), j' ∈ written items ∨ j' = j := by
  unfold addStep
  induction items generalizing n with
  | nil => simp [placed, written]
  | cons item rest ih =>
    cases n with
    | zero =>
      have hplaced : FromItem.placed { item with steps := item.steps ++ [stepOf j none] } =
          item.placed := by simp [FromItem.placed_eq, stepOf]
      have hwritten : FromItem.written { item with steps := item.steps ++ [stepOf j none] } =
          item.written ++ [j] := item.written_addStep _
      rw [List.modify_zero_cons, placed, written, written, List.flatMap_cons, List.flatMap_cons,
        List.flatMap_cons, hplaced, hwritten]
      refine ⟨rfl, (List.sublist_append_left _ _).append (List.Sublist.refl _), fun j' hj' => ?_⟩
      simp only [List.mem_append, List.mem_singleton] at hj' ⊢
      exact hj'.elim (fun h => h.imp_left .inl) fun h => .inl (.inr h)
    | succ n =>
      obtain ⟨hplaced, hsub, hmem⟩ := ih n
      rw [List.modify_succ_cons, placed, written, written, List.flatMap_cons, List.flatMap_cons,
        List.flatMap_cons]
      refine ⟨congrArg _ hplaced, (List.Sublist.refl _).append hsub, fun j' hj' => ?_⟩
      rcases List.mem_append.1 hj' with hj' | hj'
      · exact .inl (List.mem_append_left _ hj')
      · exact (hmem j' hj').imp_left (List.mem_append_right _)

theorem mem_modify {α : Type} {f : α → α} {n : Nat} {l : List α} {x : α}
    (h : x ∈ l.modify n f) : x ∈ l ∨ ∃ a ∈ l, x = f a := by
  induction l generalizing n with
  | nil => simp at h
  | cons a rest ih =>
    cases n with
    | zero =>
      rcases List.mem_cons.1 h with rfl | h
      · exact .inr ⟨a, by simp, rfl⟩
      · exact .inl (List.mem_cons_of_mem a h)
    | succ n =>
      rcases List.mem_cons.1 h with rfl | h
      · exact .inl (by simp)
      · rcases ih h with h | ⟨c, hc, rfl⟩
        · exact .inl (List.mem_cons_of_mem a h)
        · exact .inr ⟨c, List.mem_cons_of_mem a hc, rfl⟩

/-- A join that leads nowhere is written as a step without a table. -/
theorem addUnresolved_arranged {items : List FromItem} (hitems : Arranged b items) {j : Join}
    (hj : link? b j = none) : Arranged b (addUnresolved items j) := by
  refine ⟨fun item hitem => ?_, ?_⟩
  · rcases mem_modify hitem with hitem | ⟨first, hfirst, rfl⟩
    · exact hitems.sound item hitem
    · have hsound := hitems.sound first hfirst
      have htables : (first.addStep (stepOf j none)).tables = first.tables := by
        simp [FromItem.tables, FromItem.addStep, stepOf]
      have hplaced : (first.addStep (stepOf j none)).placed = first.placed :=
        congrArg (List.map _) htables
      refine ⟨fun t ht => hsound.tables t (htables ▸ ht), fun s hs => ?_⟩
      show s.Sound b (first.addStep (stepOf j none)).placed
      rw [hplaced]
      rcases List.mem_append.1 hs with hs | hs
      · exact hsound.steps s hs
      · rw [List.mem_singleton.1 hs]
        exact fun j' hj' => List.mem_singleton.1 hj' ▸ hj
  · unfold addUnresolved
    rw [(addStep_nowhere j items _).1]
    exact hitems.nodup

theorem foldl_addUnresolved_arranged {joins : List Join} {items : List FromItem}
    (hitems : Arranged b items) (hjoins : ∀ j ∈ joins, link? b j = none) :
    Arranged b (joins.foldl addUnresolved items) ∧
      (written items).Sublist (written (joins.foldl addUnresolved items)) ∧
      ∀ j ∈ written (joins.foldl addUnresolved items), j ∈ written items ∨ j ∈ joins := by
  induction joins generalizing items with
  | nil => exact ⟨hitems, List.Sublist.refl _, fun _ hj => .inl hj⟩
  | cons j rest ih =>
    obtain ⟨hj, hrest⟩ := List.forall_mem_cons.1 hjoins
    obtain ⟨harranged, hsub, hmem⟩ := ih (addUnresolved_arranged hitems hj) hrest
    obtain ⟨-, hfirst, hone⟩ := addStep_nowhere j items
      ((((place? items j.sourceTable).or (place? items j.targetTable)).map (·.item)).getD 0)
    refine ⟨harranged, hfirst.trans hsub, fun j' hj' => ?_⟩
    rcases hmem j' hj' with hj' | hj'
    · refine (hone j' hj').imp_right fun heq => ?_
      rw [heq]
      exact List.mem_cons_self
    · exact .inr (List.mem_cons_of_mem j hj')

/-- The items that the joins of a block make, beginning with its first table. -/
def joinedItems (b : Block) : List FromItem :=
  settle b.tables ((b.tables.take 1).map fun t => { base := t, steps := [] }) (links b)

theorem joinedItems_arranged (b : Block) :
    Arranged b (joinedItems b) ∧ (written (joinedItems b)).Perm ((links b).map (·.join)) := by
  unfold joinedItems
  cases htables : b.tables with
  | nil =>
    have hnone : links b = [] := by
      refine List.eq_nil_iff_forall_not_mem.2 fun l hl => ?_
      have hsource := (fits_of_mem_links hl).source
      rw [htables] at hsource
      cases hsource
    have hpass : pass [] [] = ([], [], false) := rfl
    rw [hnone, List.take_nil, List.map_nil, settle_done hpass]
    exact ⟨⟨by simp, by simp [placed]⟩, List.Perm.refl _⟩
  | cons t rest =>
    have ht : t ∈ b.tables := by simp [htables]
    have hfirst : Arranged b ([] ++ [{ base := t, steps := [] }]) :=
      Arranged.append (by simp) (FromItem.sound_base ht) (by simp [placed, FromItem.placed_eq])
    exact settle_arranged [] _ rfl hfirst fun l hl => ⟨fits_of_mem_links hl, by simp [placed],
      by simp [placed]⟩

/-- The items of a block: of its tables, each at one place, with sound steps.  Every join between
two different tables is written, and only joins of the block are. -/
theorem fromItems_arranged (b : Block) :
    Arranged b (fromItems b) ∧ (∀ l ∈ links b, l.join ∈ written (fromItems b)) ∧
      ∀ j ∈ written (fromItems b), j ∈ b.joins := by
  obtain ⟨hjoined, hperm⟩ := joinedItems_arranged b
  obtain ⟨halone, hsame⟩ := foldl_addAlone_arranged hjoined fun _ ht => ht
  have hunresolved : ∀ j ∈ b.joins.filter fun j => (link? b j).isNone, link? b j = none :=
    fun j hj => Option.isNone_iff_eq_none.1 (List.mem_filter.1 hj).2
  obtain ⟨harranged, hsub, hmem⟩ := foldl_addUnresolved_arranged halone hunresolved
  refine ⟨harranged, fun l hl => hsub.subset ?_, fun j hj => ?_⟩
  · rw [hsame]
    exact hperm.mem_iff.2 (List.mem_map_of_mem hl)
  · rcases hmem j hj with hj | hj
    · rw [hsame] at hj
      obtain ⟨l, hl, rfl⟩ := List.mem_map.1 (hperm.mem_iff.1 hj)
      exact (mem_links.1 hl).1
    · exact (List.mem_filter.1 hj).1

end Sql

end QueryCanvas
