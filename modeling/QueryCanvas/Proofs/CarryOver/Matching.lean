import Mathlib.Data.List.Nodup
import QueryCanvas.CarryOver
import QueryCanvas.Proofs.Reading.Drawn

/-!
# New identifiers that give way to old ones

Where something new is matched with something old, it takes over the old identifier, and everything
that refers to it follows.  Nothing gets confused as long as no two new things are matched with the
same old one: different identifiers are still different afterwards.
-/

set_option autoImplicit false

namespace QueryCanvas

namespace Renaming

/-! ## Renaming along a matching -/

/-- The renaming of matched identifiers: each new identifier stands with the old one it gives way
to, if there is one. -/
def ofMatches (m : List (EntityId × Option EntityId)) : Renaming :=
  m.filterMap fun p => p.2.map (p.1, ·)

/-- The identifier in place of a new one. -/
def kept (p : EntityId × Option EntityId) : EntityId := p.2.getD p.1

theorem lookup_ofMatches_of_not_mem {m : List (EntityId × Option EntityId)} {id : EntityId}
    (h : id ∉ m.map (·.1)) : (ofMatches m).lookup id = none := by
  rw [List.lookup_eq_none_iff]
  rintro ⟨a, b⟩ hmem
  obtain ⟨p, hp, hab⟩ := List.mem_filterMap.1 hmem
  obtain ⟨old, -, heq⟩ := Option.map_eq_some_iff.1 hab
  cases heq
  have hne : id ≠ p.1 := fun heq => h (List.mem_map.2 ⟨p, hp, heq.symm⟩)
  simpa using hne

theorem lookup_ofMatches_cons_of_ne {p : EntityId × Option EntityId}
    {m : List (EntityId × Option EntityId)} {id : EntityId} (h : id ≠ p.1) :
    (ofMatches (p :: m)).lookup id = (ofMatches m).lookup id := by
  obtain ⟨new, match?⟩ := p
  cases match? with
  | none => rfl
  | some old =>
    show List.lookup id ((new, old) :: ofMatches m) = _
    rw [List.lookup_cons, beq_eq_false_iff_ne.2 h]

/-- Each new identifier is replaced by that of its match. -/
theorem apply_ofMatches {m : List (EntityId × Option EntityId)} (hnodup : (m.map (·.1)).Nodup)
    {p : EntityId × Option EntityId} (hp : p ∈ m) : (ofMatches m).apply p.1 = kept p := by
  unfold apply
  induction m with
  | nil => cases hp
  | cons q rest ih =>
    obtain ⟨hfirst, hrest⟩ := List.nodup_cons.1 hnodup
    rcases List.mem_cons.1 hp with rfl | hp
    · obtain ⟨new, match?⟩ := p
      cases match? with
      | none =>
        show ((ofMatches rest).lookup new).getD new = new
        rw [lookup_ofMatches_of_not_mem hfirst]
        rfl
      | some old =>
        show (List.lookup new ((new, old) :: ofMatches rest)).getD new = old
        rw [List.lookup_cons_self]
        rfl
    · have hne : p.1 ≠ q.1 := fun heq => hfirst (List.mem_map.2 ⟨p, hp, heq⟩)
      rw [lookup_ofMatches_cons_of_ne hne]
      exact ih hrest hp

end Renaming

/-- New identifiers that are all different, with old ones that are all different and not among
them. -/
structure Matching (m : List (EntityId × Option EntityId)) : Prop where
  news : (m.map (·.1)).Nodup
  olds : (m.filterMap (·.2)).Nodup
  apart : ∀ id ∈ m.filterMap (·.2), id ∉ m.map (·.1)

namespace Matching

variable {m : List (EntityId × Option EntityId)}

/-- What takes over an identifier keeps being known by an identifier of its own. -/
theorem nodup_kept (h : Matching m) : (m.map Renaming.kept).Nodup := by
  have hnews : m.Pairwise fun p q => p.1 ≠ q.1 := List.pairwise_map.1 h.news
  have holds := List.pairwise_filterMap.1 h.olds
  refine List.pairwise_map.2 ((hnews.and holds).imp_of_mem ?_)
  rintro ⟨a, x⟩ ⟨b, y⟩ hp hq ⟨hne, hold⟩
  have hmem : ∀ {a : EntityId} {x : Option EntityId}, (a, x) ∈ m → a ∈ m.map (·.1) :=
    fun hp => List.mem_map_of_mem hp
  cases x with
  | none =>
    cases y with
    | none => exact hne
    | some d =>
      rintro rfl
      exact h.apart _ (List.mem_filterMap.2 ⟨_, hq, rfl⟩) (hmem hp)
  | some c =>
    cases y with
    | none =>
      rintro rfl
      exact h.apart _ (List.mem_filterMap.2 ⟨_, hp, rfl⟩) (hmem hq)
    | some d => exact hold c rfl d rfl

theorem apply_mem (h : Matching m) {id : EntityId} (hid : id ∈ m.map (·.1)) :
    (Renaming.ofMatches m).apply id ∈ m.map Renaming.kept := by
  obtain ⟨p, hp, rfl⟩ := List.mem_map.1 hid
  rw [Renaming.apply_ofMatches h.news hp]
  exact List.mem_map_of_mem hp

/-- Different new identifiers are replaced by different ones. -/
theorem apply_injective (h : Matching m) {a b : EntityId} (ha : a ∈ m.map (·.1))
    (hb : b ∈ m.map (·.1))
    (heq : (Renaming.ofMatches m).apply a = (Renaming.ofMatches m).apply b) : a = b := by
  obtain ⟨p, hp, rfl⟩ := List.mem_map.1 ha
  obtain ⟨q, hq, rfl⟩ := List.mem_map.1 hb
  rw [Renaming.apply_ofMatches h.news hp, Renaming.apply_ofMatches h.news hq] at heq
  rw [List.inj_on_of_nodup_map h.nodup_kept hp hq heq]

/-- Identifiers given out earlier and later that are matched are different afterwards. -/
theorem serial_kept {n n' : Nat} (h : Matching m) (hnews : ∀ id ∈ m.map (·.1), id.Between n n')
    (holds : ∀ id ∈ m.filterMap (·.2), id.Between 0 n) (hn : n ≤ n') :
    Serial 0 n' (m.map Renaming.kept) := by
  refine ⟨h.nodup_kept, fun id hid => ?_⟩
  obtain ⟨⟨new, match?⟩, hp, rfl⟩ := List.mem_map.1 hid
  cases match? with
  | none => exact (hnews new (List.mem_map_of_mem hp)).mono (Nat.zero_le n) (Nat.le_refl n')
  | some old =>
    exact (holds old (List.mem_filterMap.2 ⟨_, hp, rfl⟩)).mono (Nat.le_refl 0) hn

section ByName

variable {α : Type} {key : α → EntityId} {name : α → String} {olds news : List α}

/-- What has different names is matched with different things of these names. -/
theorem pairwise_found (olds : List α)
    (hnames : (news.map name).Pairwise fun name name' => ¬Text.sameName name name') :
    news.Pairwise fun a b => ∀ x, olds.find? (fun o => Text.sameName (name o) (name a)) = some x →
      ∀ y, olds.find? (fun o => Text.sameName (name o) (name b)) = some y → x ≠ y := by
  refine (List.pairwise_map.1 hnames).imp fun {a b} hne x hx y hy => ?_
  rintro rfl
  have hxa := List.find?_some hx
  have hxb := List.find?_some hy
  rw [Text.sameName_comm] at hxa
  exact hne (Text.sameName_trans hxa hxb)

/-- Things of different names, each matched with the first one of its name. -/
theorem byName (hold : (olds.map key).Nodup) (hnew : (news.map key).Nodup)
    (hnames : (news.map name).Pairwise fun name name' => ¬Text.sameName name name')
    (hapart : ∀ id ∈ olds.map key, id ∉ news.map key) :
    Matching (news.map fun a =>
      (key a, (olds.find? fun o => Text.sameName (name o) (name a)).map key)) := by
  have hnews : (news.map fun a =>
      (key a, (olds.find? fun o => Text.sameName (name o) (name a)).map key)).map (·.1) =
        news.map key := by
    rw [List.map_map]
    rfl
  refine ⟨?_, ?_, fun id hid => ?_⟩
  · rw [hnews]
    exact hnew
  · rw [List.filterMap_map]
    refine List.pairwise_filterMap.2 ((pairwise_found olds hnames).imp fun {a b} hne => ?_)
    intro i hi j hj heq
    obtain ⟨x, hx, rfl⟩ := Option.map_eq_some_iff.1 hi
    obtain ⟨y, hy, rfl⟩ := Option.map_eq_some_iff.1 hj
    exact hne x hx y hy (List.inj_on_of_nodup_map hold (List.mem_of_find?_eq_some hx)
      (List.mem_of_find?_eq_some hy) heq)
  · rw [hnews]
    obtain ⟨p, hp, hid⟩ := List.mem_filterMap.1 hid
    obtain ⟨a, -, rfl⟩ := List.mem_map.1 hp
    obtain ⟨x, hx, rfl⟩ := Option.map_eq_some_iff.1 hid
    exact hapart _ (List.mem_map_of_mem (List.mem_of_find?_eq_some hx))

end ByName

end Matching

/-! ## Tables and named queries -/

namespace Block

/-- The identifiers of tables with those of the tables of the same names before. -/
def tableMatches (old : Block) (tables : List Table) : List (EntityId × Option EntityId) :=
  tables.map fun t => (t.id, (old.tableNamed? t.name).map (·.id))

theorem tableRenaming_eq (old : Block) (tables : List Table) :
    tableRenaming old tables = Renaming.ofMatches (tableMatches old tables) := by
  rw [tableRenaming, tableMatches, Renaming.ofMatches, List.filterMap_map]
  congr 1
  funext t
  exact (Option.map_map _ _ (old.tableNamed? t.name)).symm

theorem carryTable_id (old : Block) (t : Table) :
    (carryTable old t).id = Renaming.kept (t.id, (old.tableNamed? t.name).map (·.id)) := by
  unfold carryTable
  split
  · rename_i hnone
    rw [hnone]
    rfl
  · rename_i before hbefore
    rw [hbefore]
    rfl

theorem map_carryTable_id (old : Block) (tables : List Table) :
    (tables.map (carryTable old)).map (·.id) = (tableMatches old tables).map Renaming.kept := by
  rw [tableMatches, List.map_map, List.map_map]
  exact List.map_congr_left fun t _ => carryTable_id old t

theorem tableMatches_news (old : Block) (tables : List Table) :
    (tableMatches old tables).map (·.1) = tables.map (·.id) := by
  rw [tableMatches, List.map_map]
  rfl

/-- The old identifiers of a matching are those of old tables. -/
theorem mem_tableMatches_olds {old : Block} {tables : List Table} {id : EntityId}
    (h : id ∈ (tableMatches old tables).filterMap (·.2)) : id ∈ old.tables.map (·.id) := by
  obtain ⟨_, hp, hid⟩ := List.mem_filterMap.1 h
  obtain ⟨t, -, rfl⟩ := List.mem_map.1 hp
  obtain ⟨before, hbefore, rfl⟩ := Option.map_eq_some_iff.1 hid
  exact List.mem_map_of_mem (List.mem_of_find?_eq_some hbefore)

/-- Tables of different names are matched with different tables. -/
theorem matching_tables {old : Block} {tables : List Table}
    (hold : (old.tables.map (·.id)).Nodup) (hnew : (tables.map (·.id)).Nodup)
    (hnames : (tables.map (·.name)).Pairwise fun name name' => ¬Text.sameName name name')
    (hapart : ∀ id ∈ old.tables.map (·.id), id ∉ tables.map (·.id)) :
    Matching (tableMatches old tables) :=
  Matching.byName hold hnew hnames hapart

end Block

namespace Canvas

/-- The identifiers of named queries with those of the named queries of the same names before. -/
def cteMatches (old : Canvas) (ctes : List Cte) : List (EntityId × Option EntityId) :=
  ctes.map fun q => (q.id, (old.cteNamed? q.name).map (·.id))

theorem cteRenaming_eq (old : Canvas) (ctes : List Cte) :
    cteRenaming old ctes = Renaming.ofMatches (cteMatches old ctes) := by
  rw [cteRenaming, cteMatches, Renaming.ofMatches, List.filterMap_map]
  congr 1
  funext q
  exact (Option.map_map _ _ (old.cteNamed? q.name)).symm

theorem carryCte_id (old : Canvas) (q : Cte) :
    (carryCte old q).id = Renaming.kept (q.id, (old.cteNamed? q.name).map (·.id)) := by
  unfold carryCte
  split
  · rename_i hnone
    rw [hnone]
    rfl
  · rename_i before hbefore
    rw [hbefore]
    rfl

theorem map_carryCte_id (old : Canvas) (ctes : List Cte) :
    (ctes.map (carryCte old)).map (·.id) = (cteMatches old ctes).map Renaming.kept := by
  rw [cteMatches, List.map_map, List.map_map]
  exact List.map_congr_left fun q _ => carryCte_id old q

/-- Named queries of different names are matched with different named queries. -/
theorem matching_ctes {old : Canvas} {ctes : List Cte} (hold : old.cteIds.Nodup)
    (hnew : (ctes.map (·.id)).Nodup)
    (hnames : (ctes.map (·.name)).Pairwise fun name name' => ¬Text.sameName name name')
    (hapart : ∀ id ∈ old.cteIds, id ∉ ctes.map (·.id)) : Matching (cteMatches old ctes) :=
  Matching.byName hold hnew hnames hapart

/-- A renamed link leads to the named query that it led to before. -/
theorem cteRenaming_apply (old : Canvas) {ctes : List Cte} (hnodup : (ctes.map (·.id)).Nodup)
    {q : Cte} (hq : q ∈ ctes) : (cteRenaming old ctes).apply q.id = (carryCte old q).id := by
  have hnews : ((cteMatches old ctes).map (·.1)).Nodup := by
    rw [cteMatches, List.map_map]
    exact hnodup
  have hmem : (q.id, (old.cteNamed? q.name).map (·.id)) ∈ cteMatches old ctes :=
    List.mem_map_of_mem hq
  rw [cteRenaming_eq, Renaming.apply_ofMatches hnews hmem, carryCte_id]

/-- A link follows the named query that it leads to. -/
theorem cteRenaming_apply_mem {old : Canvas} {ctes : List Cte} (hnodup : (ctes.map (·.id)).Nodup)
    {id : EntityId} (hid : id ∈ ctes.map (·.id)) :
    (cteRenaming old ctes).apply id ∈ (ctes.map (carryCte old)).map (·.id) := by
  obtain ⟨q, hq, rfl⟩ := List.mem_map.1 hid
  rw [cteRenaming_apply old hnodup hq]
  exact List.mem_map_of_mem (List.mem_map_of_mem hq)

end Canvas

end QueryCanvas
