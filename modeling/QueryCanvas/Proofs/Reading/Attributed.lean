import QueryCanvas.Proofs.Reading.Drawn
import QueryCanvas.Proofs.Reading.Sources

/-!
# To which table a written column belongs

A select over plain tables calls each of them by one name: its alias, or its own name if it has no
alias.  Reading also knows a table with an alias by its own name, and the first source of a name
wins.  So a column that is written with the name of a table belongs to this table exactly if no
table before it has that name as its own.
-/

set_option autoImplicit false

namespace QueryCanvas.Sql

/-! ## Plain tables and their names -/

/-- The source is a plain table. -/
def Source.IsTable : Source → Prop
  | .table _ _ _ _ => True
  | _ => False

/-- The own name of a table. -/
def Source.ownName : Source → String
  | .table name _ _ _ => plainPath name
  | _ => ""

/-- The name by which a select calls a table: its alias if it has one, else its own name. -/
def Source.exposed : Source → String
  | .table name _ named _ => (named.map (·.name.value)).getD (plainPath name)
  | _ => ""

/-- What is written with a qualifier belongs to the table, wherever in the select it stands. -/
structure Draft.Attributes (d : Draft) (qualifier : String) (t : Table) : Prop where
  /-- All columns of the qualifier are the columns of the table. -/
  all : ∃ key, d.source? qualifier = some ⟨key, some (t.id, t.name)⟩
  /-- A column in the list of results is chosen in the table. -/
  chosen : ∀ column, selectionOwner ⟨some qualifier, column⟩ d = .ok t.id
  /-- A side of a join is the table. -/
  joined : ∀ e column, e.columnName? = some ⟨some qualifier, column⟩ →
    joinSide e d = .ok (t.id, d.declared t.id column)
  /-- In all other clauses the column is written as one of the table. -/
  written : ∀ column,
    d.columnText ⟨some qualifier, column⟩ = columnRef t.name (d.declared t.id column)

variable {d : Draft}

/-- The source that is found first decides on all of these. -/
theorem Draft.attributes_iff {qualifier : String} {t : Table} :
    d.Attributes qualifier t ↔ ∃ key, d.source? qualifier = some ⟨key, some (t.id, t.name)⟩ := by
  refine ⟨Attributes.all, fun ⟨key, hfound⟩ =>
    ⟨⟨key, hfound⟩, fun column => ?_, fun e column he => ?_, fun column => ?_⟩⟩
  · simp only [selectionOwner, hfound]
  · simp only [joinSide, he, hfound, Option.bind_some]
  · simp only [Draft.columnText, hfound, Option.bind_some]

/-! ## The first source of a name -/

/-- What stands before and behind a member of a list, and before and behind what corresponds to
it. -/
theorem forall₂_split {α β : Type} {R : α → β → Prop} {before after : List α} {a : α} {l : List β}
    (h : (before ++ a :: after).Forall₂ R l) :
    ∃ before' a' after', l = before' ++ a' :: after' ∧ before.Forall₂ R before' ∧ R a a' := by
  induction before generalizing l with
  | nil =>
    obtain ⟨a', after', ha, -, rfl⟩ := List.forall₂_cons_left_iff.1 h
    exact ⟨[], a', after', rfl, .nil, ha⟩
  | cons b before ih =>
    obtain ⟨b', l', hb, hl, rfl⟩ := List.forall₂_cons_left_iff.1 h
    obtain ⟨before', a', after', rfl, hbefore, ha⟩ := ih hl
    exact ⟨b' :: before', a', after', rfl, .cons hb hbefore, ha⟩

/-- The names of a table that are found: each leads to the table, and it is its alias or its own
name. -/
theorem Source.Known.key_of_table {source : Source} (hsource : source.IsTable)
    {keys : List SourceName} {tables : List Table} (h : source.Known keys tables) {k : SourceName}
    (hk : k ∈ keys) : ∃ t, tables = [t] ∧ k.table = some (t.id, t.name) ∧
      (k.key = source.exposed ∨ Text.sameName k.key source.ownName) := by
  cases h with
  | @table name arguments named marks t hname =>
    rcases List.mem_append.1 hk with hk | hk
    · obtain ⟨a, rfl, rfl⟩ := Option.map_eq_some_iff.1 (Option.mem_toList.1 hk)
      exact ⟨t, rfl, rfl, .inl rfl⟩
    · rw [List.mem_singleton.1 hk]
      exact ⟨t, rfl, rfl, .inr hname⟩
  | derived => exact hsource.elim

/-- A table is found by the name by which the select calls it. -/
theorem Source.Known.find_exposed {source : Source} (hsource : source.IsTable)
    {keys : List SourceName} {tables : List Table} (h : source.Known keys tables)
    {qualifier : String} (hname : Text.sameName qualifier source.exposed) :
    ∃ t key, tables = [t] ∧ Text.sameName t.name source.ownName ∧
      keys.find? (Text.sameName ·.key qualifier) = some ⟨key, some (t.id, t.name)⟩ := by
  cases h with
  | @table name arguments named marks t hown =>
    cases named with
    | none =>
      refine ⟨t, t.name, rfl, hown, ?_⟩
      have hkey : Text.sameName t.name qualifier :=
        Text.sameName_trans hown (by rw [Text.sameName_comm]; exact hname)
      simp [hkey]
    | some a =>
      refine ⟨t, a.name.value, rfl, hown, ?_⟩
      have hkey : Text.sameName a.name.value qualifier := by
        rw [Text.sameName_comm]
        exact hname
      simp [hkey]
  | derived => exact hsource.elim

/-- A table is found by its own name. -/
theorem Source.Known.find_ownName {source : Source} (hsource : source.IsTable)
    {keys : List SourceName} {tables : List Table} (h : source.Known keys tables)
    {qualifier : String} (hname : Text.sameName source.ownName qualifier) :
    (keys.find? (Text.sameName ·.key qualifier)).isSome := by
  cases h with
  | @table name arguments named marks t hown =>
    rw [List.find?_isSome]
    exact ⟨_, List.mem_append_right _ (List.mem_singleton_self _), Text.sameName_trans hown hname⟩
  | derived => exact hsource.elim

variable {before after : List Source} {source : Source} {qualifier : String}

/-- No name of the tables before another one is the name by which that one is called, if none of
them is called by it or has it as its own name. -/
theorem find?_before {known : List (List SourceName × List Table)}
    (hknown : before.Forall₂ (fun source k => source.Known k.1 k.2) known)
    (htables : ∀ source ∈ before, source.IsTable)
    (hexposed : ∀ source ∈ before, ¬Text.sameName source.exposed qualifier)
    (hown : ∀ source ∈ before, ¬Text.sameName source.ownName qualifier) :
    (known.flatMap (·.1)).find? (Text.sameName ·.key qualifier) = none := by
  rw [List.find?_eq_none]
  intro k hk hsame
  obtain ⟨entry, hentry, hk⟩ := List.mem_flatMap.1 hk
  obtain ⟨earlier, hearlier, hentryKnown⟩ := exists_of_mem_right hknown hentry
  obtain ⟨t, -, -, hkey | hkey⟩ := hentryKnown.key_of_table (htables earlier hearlier) hk
  · exact hexposed earlier hearlier (hkey ▸ hsame)
  · rw [Text.sameName_comm] at hkey
    exact hown earlier hearlier (Text.sameName_trans hkey hsame)

/-- If a table before another one has the qualifier as its own name, then a table before that one is
found. -/
theorem find?_captured {known : List (List SourceName × List Table)}
    (hknown : before.Forall₂ (fun source k => source.Known k.1 k.2) known)
    (htables : ∀ source ∈ before, source.IsTable) {earlier : Source} (hearlier : earlier ∈ before)
    (hown : Text.sameName earlier.ownName qualifier) :
    ∃ k, (known.flatMap (·.1)).find? (Text.sameName ·.key qualifier) = some k ∧
      ∃ t ∈ known.flatMap (·.2), k.table = some (t.id, t.name) := by
  obtain ⟨front, back, rfl⟩ := List.append_of_mem hearlier
  obtain ⟨front', entry, back', rfl, -, hentry⟩ := forall₂_split hknown
  have hfound := hentry.find_ownName (htables earlier hearlier) hown
  have hsome : (((front' ++ entry :: back').flatMap (·.1)).find?
      (Text.sameName ·.key qualifier)).isSome := by
    obtain ⟨k, hk, hkey⟩ := List.find?_isSome.1 hfound
    refine List.find?_isSome.2 ⟨k, List.mem_flatMap.2 ⟨entry, ?_, hk⟩, hkey⟩
    exact List.mem_append_right _ List.mem_cons_self
  obtain ⟨k, hk⟩ := Option.isSome_iff_exists.1 hsome
  obtain ⟨entry', hentry', hmem⟩ := List.mem_flatMap.1 (List.mem_of_find?_eq_some hk)
  obtain ⟨source, hsource, hsourceKnown⟩ := exists_of_mem_right hknown hentry'
  obtain ⟨t, hsingle, htable, -⟩ := hsourceKnown.key_of_table (htables source hsource) hmem
  refine ⟨k, hk, t, List.mem_flatMap.2 ⟨entry', hentry', ?_⟩, htable⟩
  rw [hsingle]
  exact List.mem_singleton_self t

/-- Each plain table is drawn as one table. -/
theorem length_tables {known : List (List SourceName × List Table)}
    (hknown : before.Forall₂ (fun source k => source.Known k.1 k.2) known)
    (htables : ∀ source ∈ before, source.IsTable) :
    (known.flatMap (·.2)).length = before.length := by
  induction hknown with
  | nil => rfl
  | @cons source entry rest known hentry _ ih =>
    have hone : entry.2.length = 1 := by
      have hsource := htables source List.mem_cons_self
      obtain ⟨t, -, hsingle, -⟩ := hentry.find_exposed hsource (Text.sameName_refl _)
      rw [hsingle]
      rfl
    rw [List.flatMap_cons, List.length_append, hone,
      ih fun source hsource => htables source (List.mem_cons_of_mem _ hsource), List.length_cons,
      Nat.add_comm]

/-! ## Selects over plain tables -/

variable {s : Scope} {nested : Bool} {q : Query} {clauses : Clauses} {n n' : Nat} {b : Block}

/-- Tables of a block stand where they stood behind the `FROM` clause. -/
theorem Clauses.Depicted.split_tables (h : clauses.Depicted s d b) {front back : List Table}
    {t : Table} (htables : d.block.tables = front ++ t :: back) :
    ∃ front' t' back', b.tables = front' ++ t' :: back' ∧
      front'.map Table.unchosen = front.map Table.unchosen ∧ t'.unchosen = t.unchosen := by
  obtain ⟨choices, -, hchosen⟩ := h.results
  have hmap : b.tables.map Table.unchosen =
      front.map Table.unchosen ++ t.unchosen :: back.map Table.unchosen := by
    rw [hchosen, unchosen_foldl_choose, htables, List.map_append, List.map_cons]
  obtain ⟨front', rest, hsplit, hfront, hrest⟩ := List.map_eq_append_iff.1 hmap
  obtain ⟨t', back', rfl, ht, -⟩ := List.map_eq_cons_iff.1 hrest
  exact ⟨front', t', back', hsplit, hfront, ht⟩

/-- What is written in a select over plain tables with the name by which it calls one of them
belongs to this table, in all clauses, exactly if no table before it has that name as its own. -/
theorem references_attributed_iff (h : Gives (readBlock s nested q) n b n')
    (hclauses : q.clauses? = some clauses) (hsources : clauses.sources ≠ [])
    (htables : ∀ source ∈ clauses.allSources, source.IsTable)
    (hexposed : clauses.allSources.Pairwise fun a b => ¬Text.sameName a.exposed b.exposed) :
    ∃ d, FromDepicted s Draft.empty clauses.allSources clauses.allEqualities d ∧
      clauses.Depicted s d b ∧ ∀ before source after,
        clauses.allSources = before ++ source :: after → ∃ front t back,
          b.tables = front ++ t :: back ∧ front.length = before.length ∧
            Text.sameName t.name source.ownName ∧
            ∀ qualifier, Text.sameName qualifier source.exposed →
              (d.Attributes qualifier t ↔
                ∀ earlier ∈ before, ¬Text.sameName earlier.ownName qualifier) := by
  obtain ⟨_, hq, hread⟩ := readBlock_depicted h
  cases hclauses.symm.trans hq
  obtain ⟨-, rfl⟩ | ⟨d, hfrom, hdepicted⟩ := hread
  · exact absurd rfl hsources
  refine ⟨d, hfrom, hdepicted, fun before source after hsplit => ?_⟩
  obtain ⟨known, hknown, hnames, hblock⟩ := hfrom.known
  rw [hsplit] at hknown htables hexposed
  obtain ⟨front, entry, back, rfl, hfront, hentry⟩ := forall₂_split hknown
  have hbefore : ∀ earlier ∈ before, earlier.IsTable := fun earlier hearlier =>
    htables earlier (List.mem_append_left _ hearlier)
  have hsource : source.IsTable := htables source (List.mem_append_right _ List.mem_cons_self)
  obtain ⟨u, -, hsingle, hname, -⟩ := hentry.find_exposed hsource (Text.sameName_refl _)
  have hdrawn : d.block.tables = front.flatMap (·.2) ++ u :: back.flatMap (·.2) := by
    rw [hblock, List.flatMap_append, List.flatMap_cons, hsingle]
    rfl
  obtain ⟨front', t, back', htablesOf, hfront', ht⟩ := hdepicted.split_tables hdrawn
  have hid : t.id = u.id := Table.id_of_unchosen ht
  have hsameName : t.name = u.name := Table.name_of_unchosen ht
  refine ⟨front', t, back', htablesOf, ?_, hsameName ▸ hname, fun qualifier hqualifier => ?_⟩
  · have hlength := congrArg List.length hfront'
    rw [List.length_map, List.length_map, length_tables hfront hbefore] at hlength
    exact hlength
  have hfind : d.source? qualifier =
      ((front.flatMap (·.1)).find? (Text.sameName ·.key qualifier)).or
        ((entry.1.find? (Text.sameName ·.key qualifier)).or
          ((back.flatMap (·.1)).find? (Text.sameName ·.key qualifier))) := by
    rw [Draft.source?, hnames, List.flatMap_append, List.flatMap_cons]
    simp only [Draft.empty, List.nil_append, List.find?_append]
  rw [Draft.attributes_iff]
  constructor
  · rintro ⟨key, hfound⟩ earlier hearlier hown
    obtain ⟨k, hk, v, hv, htable⟩ := find?_captured hfront hbefore hearlier hown
    rw [hfind, hk, Option.some_or, Option.some.injEq] at hfound
    -- the table that is found stands before the other one, so it is another one
    have hids := ((readBlock_drawn s nested q n).result b n' h b b.self_mem_blocks).tableIds.nodup
    rw [htablesOf, List.map_append, List.map_cons] at hids
    have hnew := (List.nodup_append.1 hids).2.2
    have hvid : v.id = t.id := by
      rw [hfound] at htable
      exact congrArg Prod.fst (Option.some.inj htable).symm
    obtain ⟨v', hv', hsame⟩ := List.mem_map.1 (hfront' ▸ List.mem_map_of_mem hv)
    refine hnew v'.id (List.mem_map_of_mem hv') t.id List.mem_cons_self ?_
    rw [Table.id_of_unchosen hsame, hvid]
  · intro hown
    have hcalled : ∀ earlier ∈ before, ¬Text.sameName earlier.exposed qualifier := by
      intro earlier hearlier hsame
      have hpair := (List.pairwise_append.1 hexposed).2.2 earlier hearlier source List.mem_cons_self
      exact hpair (Text.sameName_trans hsame hqualifier)
    obtain ⟨v, key, hsingle', -, hentryFound⟩ := hentry.find_exposed hsource hqualifier
    cases List.singleton_inj.1 (hsingle.symm.trans hsingle')
    refine ⟨key, ?_⟩
    rw [hfind, find?_before hfront hbefore hcalled hown, Option.none_or, hentryFound,
      Option.some_or, hid, hsameName]

/-! ## Two tables, each with an alias -/

/-- A table with an alias. -/
def tableCalled (name called : String) : FromPart :=
  .mk (.table [⟨name, none⟩] none (some ⟨⟨called, none⟩, []⟩) ("", "")) []

/-- The column `x` of the source `a`, chosen from the given sources. -/
def chosenFrom (sources : List FromPart) : Query :=
  .plain (.select [.expr (.column [⟨"a", none⟩, ⟨"x", none⟩]) none] sources none [] none
    { distinct := none, top := none, into := none, lateralViews := [], prewhere := none
      groupAll := false, groupModifiers := [], distribution := [], windows := none
      qualify := none, windowsFirst := false, connectBy := none })

/-- The clauses of that query. -/
def chosenClauses (sources : List FromPart) : Clauses :=
  { items := [.expr (.column [⟨"a", none⟩, ⟨"x", none⟩]) none], sources, condition := none
    groupBy := [], having := none, orderBy := none, limit := none }

/-- The tables that are drawn and what is chosen of them. -/
def drawnTables (q : Query) : Option (List (String × List String)) :=
  ((readBlock ⟨.empty, []⟩ false q).run 0).1.toOption.map
    (·.tables.map fun t => (t.name, t.selected))

theorem gives_of_drawnTables {tables : List (String × List String)}
    (h : drawnTables q = some tables) :
    ∃ b n', Gives (readBlock ⟨.empty, []⟩ false q) 0 b n' ∧
      b.tables.map (fun t => (t.name, t.selected)) = tables :=
  gives_of_toOption h

/-- Where the table `a` stands behind the table that is called `a`, it captures nothing. -/
theorem references_attributed_alias_first :
    ∃ b n',
      Gives (readBlock ⟨.empty, []⟩ false (chosenFrom [tableCalled "t" "a", tableCalled "a" "b"]))
        0 b n' ∧
      b.tables.map (fun t => (t.name, t.selected)) = [("t", ["x"]), ("a", [])] ∧
      ∃ (d : Draft) (t : Table) (back : List Table), b.tables = t :: back ∧
        d.Attributes "a" t := by
  have hdrawn : drawnTables (chosenFrom [tableCalled "t" "a", tableCalled "a" "b"]) =
      some [("t", ["x"]), ("a", [])] := by decide +kernel
  obtain ⟨b, n', hread, htables⟩ := gives_of_drawnTables hdrawn
  have hclauses : (chosenFrom [tableCalled "t" "a", tableCalled "a" "b"]).clauses? =
      some (chosenClauses [tableCalled "t" "a", tableCalled "a" "b"]) := rfl
  have hplain : ∀ source ∈ (chosenClauses [tableCalled "t" "a", tableCalled "a" "b"]).allSources,
      source.IsTable := by
    simp [chosenClauses, Clauses.allSources, tableCalled, FromPart.sources, Source.IsTable]
  have hexposed : (chosenClauses [tableCalled "t" "a", tableCalled "a" "b"]).allSources.Pairwise
      fun a b => ¬Text.sameName a.exposed b.exposed := by
    simp only [chosenClauses, Clauses.allSources, tableCalled, FromPart.sources, List.flatMap_cons,
      List.flatMap_nil, List.map_nil, List.append_nil, List.singleton_append, List.pairwise_cons,
      List.mem_singleton, forall_eq, List.not_mem_nil, false_implies, implies_true,
      List.Pairwise.nil, and_true]
    decide +kernel
  obtain ⟨d, -, -, hsplit⟩ := references_attributed_iff hread hclauses (by simp [chosenClauses])
    hplain hexposed
  obtain ⟨front, t, back, hblock, hfront, -, hiff⟩ := hsplit [] _ _ rfl
  rw [List.length_nil, List.length_eq_zero_iff] at hfront
  rw [hfront, List.nil_append] at hblock
  exact ⟨b, n', hread, htables, d, t, back, hblock, (hiff "a" (by decide +kernel)).2 (by simp)⟩

/-- Where the table `a` stands before the table that is called `a`, it captures what is written with
that name. -/
theorem alias_captured :
    (chosenClauses [tableCalled "a" "b", tableCalled "t" "a"]).allSources.map Source.exposed =
        ["b", "a"] ∧
      ∃ b n',
        Gives (readBlock ⟨.empty, []⟩ false (chosenFrom [tableCalled "a" "b", tableCalled "t" "a"]))
          0 b n' ∧
        b.tables.map (fun t => (t.name, t.selected)) = [("a", ["x"]), ("t", [])] :=
  ⟨by decide +kernel, gives_of_drawnTables (by decide +kernel)⟩

end QueryCanvas.Sql
