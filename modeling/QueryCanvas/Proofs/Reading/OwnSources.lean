import QueryCanvas.Proofs.Diagnosis.Columns
import QueryCanvas.Proofs.Reading.Aliases

/-!
# Queries whose columns name sources of their own

If every column of a select that is written with the name of a source names one of its own `FROM`
clause, then the block that is read off the select knows the source of each column that is written
on it; only what is kept as it stands may hold an alias of a table.  So the diagnosis of such a
canvas takes a column for one of an unknown table exactly where its last point does not tell the
source, or where an alias is kept.
-/

set_option autoImplicit false

namespace QueryCanvas

open Sql

namespace Sql

/-! ## What the names of sources lead to -/

variable {s : Scope} {k : Clauses} {d d' : Draft} {b : Block} {n n' : Nat} {a : String}

/-- The name of a table leads to it; all other names are those of nested queries. -/
theorem Source.Known.leads {source : Source} {keys : List SourceName} {tables : List Table}
    (h : source.Known keys tables) {entry : SourceName} (hentry : entry ∈ keys) :
    (∃ t ∈ tables, entry.table = some (t.id, t.name)) ∨
      entry.table = none ∧ source.nestedQuery?.isSome := by
  cases h with
  | @table name arguments named marks t hname =>
    refine .inl ⟨t, List.mem_singleton_self t, ?_⟩
    rcases List.mem_append.1 hentry with hentry | hentry
    · obtain ⟨x, -, rfl⟩ := Option.map_eq_some_iff.1 (Option.mem_toList.1 hentry)
      rfl
    · rw [List.mem_singleton.1 hentry]
  | derived =>
    obtain ⟨x, -, rfl⟩ := Option.map_eq_some_iff.1 (Option.mem_toList.1 hentry)
    exact .inr ⟨rfl, rfl⟩

/-- The name that a source has for good is that of its table or the alias of its nested query. -/
theorem Source.Known.fixed {source : Source} {keys : List SourceName} {tables : List Table}
    (h : source.Known keys tables) {own : String} (hown : source.fixedName? = some own) :
    (∃ t ∈ tables, Text.sameName t.name own) ∨ ⟨own, none⟩ ∈ keys := by
  cases h with
  | @table name arguments named marks t hname =>
    cases hown
    exact .inl ⟨t, List.mem_singleton_self t, hname⟩
  | derived =>
    obtain ⟨x, rfl, rfl⟩ := Option.map_eq_some_iff.1 hown
    exact .inr (List.mem_singleton_self _)

/-! ## Nested queries and their aliases -/

/-- Each name that is no table's is the alias of a nested query in the `FROM` clause. -/
def Draft.DerivedThere (d : Draft) : Prop :=
  ∀ entry ∈ d.sources, entry.table = none →
    ∃ q ∈ d.block.subqueriesIn .fromClause, q.aliasName = some entry.key

theorem derivedThere_empty : Draft.empty.DerivedThere := by simp [Draft.DerivedThere, Draft.empty]

/-- Tables and joins leave the nested queries where they are. -/
theorem FromDepicted.derivedThere {sources : List Source} {equalities : List (JoinKind × Expr)}
    (h : FromDepicted s d sources equalities d')
    (htables : ∀ source ∈ sources, source.nestedQuery? = none) (hd : d.DerivedThere) :
    d'.DerivedThere := by
  obtain ⟨known, hknown, hsources, -⟩ := h.known
  obtain ⟨subs, -, hsubs⟩ := h.subqueries
  intro entry hentry hnone
  rw [hsources] at hentry
  rcases List.mem_append.1 hentry with hentry | hentry
  · obtain ⟨q, hq, halias⟩ := hd entry hentry hnone
    refine ⟨q, ?_, halias⟩
    rw [Block.subqueriesIn, hsubs, List.filter_append]
    exact List.mem_append_left _ hq
  · obtain ⟨⟨keys, tables⟩, hmem, hentry⟩ := List.mem_flatMap.1 hentry
    obtain ⟨source, hsource, hk⟩ := exists_of_mem_right hknown hmem
    rcases hk.leads hentry with ⟨t, -, htable⟩ | ⟨-, hnested⟩
    · rw [hnone] at htable
      cases htable
    · rw [htables source hsource] at hnested
      cases hnested

theorem readSource_derivedThere (source : Source) {joined : Option EntityId}
    (h : Goes (readSource s source) n d joined n' d') (hd : d.DerivedThere) :
    d'.DerivedThere := by
  cases source with
  | table name arguments named marks =>
    exact (readSource_known _ h).derivedThere (by simp [Source.nestedQuery?]) hd
  | derived lateral q named =>
    simp only [readSource, Goes.guard_iff, Goes.bind_iff, Goes.lift_iff, Goes.mint_iff,
      Goes.modify_iff, Goes.pure_iff] at h
    obtain ⟨-, inner, _, _, ⟨-, rfl⟩, id, _, _, ⟨-, rfl, rfl⟩, -, _, _, _, ⟨rfl, rfl⟩, -, rfl,
      rfl⟩ := h
    intro entry hentry hnone
    rcases List.mem_append.1 hentry with hentry | hentry
    · obtain ⟨sub, hsub, halias⟩ := hd entry hentry hnone
      refine ⟨sub, ?_, halias⟩
      rw [Block.subqueriesIn, List.filter_append]
      exact List.mem_append_left _ hsub
    · obtain ⟨x, hx, rfl⟩ := Option.map_eq_some_iff.1 (Option.mem_toList.1 hentry)
      exact ⟨_, List.mem_filter.2 ⟨List.mem_append_right _ (List.mem_singleton_self _), rfl⟩, hx⟩
  | _ => exact absurd h Goes.refuse_iff

theorem readJoin_derivedThere {j : JoinClause} (h : Goes (readJoin s j) n d () n' d')
    (hthere : d.TablesThere) (hd : d.DerivedThere) : d'.DerivedThere := by
  obtain ⟨global, op, source, constraint⟩ := j
  cases op with
  | cross =>
    obtain ⟨joined, n₁, d₁, hsource, hpure⟩ := Goes.bind_iff.1 h
    obtain ⟨-, -, rfl⟩ := Goes.pure_iff.1 hpure
    exact readSource_derivedThere source hsource hd
  | kind kind =>
    obtain ⟨joined, n₁, d₁, hsource, hconstraint⟩ := Goes.bind_iff.1 h
    have hd₁ := readSource_derivedThere source hsource hd
    have hthere₁ := (readSource_known source hsource).tablesThere hthere
    cases joined with
    | none => exact absurd hconstraint Goes.refuse_iff
    | some id =>
      have hknown : FromDepicted s d₁ []
          (JoinClause.equalities (.mk global (.kind kind) source constraint)) d' :=
        readConstraint_known hthere₁ hconstraint
      exact hknown.derivedThere (by simp) hd₁
  | other text => exact absurd h Goes.refuse_iff

theorem readJoins_derivedThere (joins : List JoinClause) : ∀ {n n' : Nat} {d d' : Draft},
    Goes (readJoins s joins) n d () n' d' → d.TablesThere → d.DerivedThere → d'.DerivedThere := by
  induction joins with
  | nil =>
    intro n n' d d' h _ hd
    obtain ⟨-, -, rfl⟩ := Goes.pure_iff.1 h
    exact hd
  | cons j rest ih =>
    intro n n' d d' h hthere hd
    obtain ⟨n₁, d₁, hj, hrest⟩ := goes_readJoins_cons.1 h
    exact ih hrest ((readJoin_known hthere hj).tablesThere hthere)
      (readJoin_derivedThere hj hthere hd)

theorem readSources_derivedThere (sources : List FromPart) : ∀ {n n' : Nat} {d d' : Draft},
    Goes (readSources s sources) n d () n' d' → d.TablesThere → d.DerivedThere →
      d'.DerivedThere := by
  induction sources with
  | nil =>
    intro n n' d d' h _ hd
    obtain ⟨-, -, rfl⟩ := Goes.pure_iff.1 h
    exact hd
  | cons part rest ih =>
    intro n n' d d' h hthere hd
    obtain ⟨source, joins⟩ := part
    obtain ⟨joined, n₁, d₁, hsource, n₂, d₂, hjoins, hrest⟩ := goes_readSources_cons.1 h
    have hthere₁ := (readSource_known source hsource).tablesThere hthere
    have hd₁ := readSource_derivedThere source hsource hd
    exact ih hrest ((readJoins_known joins hthere₁ hjoins).tablesThere hthere₁)
      (readJoins_derivedThere joins hjoins hthere₁ hd₁)

/-! ## What a block knows -/

/-- A column that is written with a source refers to that source alone. -/
theorem source_of_columnRef {table column : String} {r : Reference}
    (hr : r ∈ referencesIn (columnRef table column)) : r.source = table := by
  rw [referencesIn, (refers_columnRef table column).references] at hr
  rw [List.mem_singleton.1 hr]

/-- The block depicts the clauses, with the names that their `FROM` clause makes known. -/
structure Clauses.DepictedWith (k : Clauses) (s : Scope) (d : Draft) (b : Block) : Prop where
  names : FromDepicted s Draft.empty k.allSources k.allEqualities d
  derived : d.DerivedThere
  depicted : k.Depicted s d b

namespace Clauses.DepictedWith

variable (h : k.DepictedWith s d b)
include h

/-- The block knows the tables behind the `FROM` clause. -/
theorem knows_table {t : Table} (ht : t ∈ d.block.tables) (hname : Text.sameName t.name a) :
    b.knows a = true := by
  obtain ⟨choices, -, htables⟩ := h.depicted.results
  have hsame := unchosen_foldl_choose choices d.block.tables
  rw [← htables] at hsame
  obtain ⟨u, hu, hunchosen⟩ := List.mem_map.1 (hsame ▸ List.mem_map_of_mem (f := Table.unchosen) ht)
  have hcalled : u.unchosen.name = t.unchosen.name := congrArg Table.name hunchosen
  rw [Block.knows, Bool.or_eq_true]
  exact .inl (List.any_eq_true.2 ⟨u, hu, hcalled ▸ hname⟩)

/-- The block knows the nested queries behind the `FROM` clause. -/
theorem knows_derived {entry : SourceName} (hentry : entry ∈ d.sources) (hnone : entry.table = none)
    (hkey : Text.sameName entry.key a) : b.knows a = true := by
  obtain ⟨q, hq, halias⟩ := h.derived entry hentry hnone
  obtain ⟨subs, -, hsubs⟩ := h.depicted.subqueries
  have hq : q ∈ b.subqueriesIn .fromClause := by
    rw [Block.subqueriesIn, hsubs, List.filter_append]
    exact List.mem_append_left _ hq
  rw [Block.knows, Bool.or_eq_true]
  exact .inr (List.any_eq_true.2 ⟨q, hq, by rwa [halias]⟩)

/-- The block knows every name that a source has for good. -/
theorem knows_fixed (hfixed : k.fixesName a) : b.knows a = true := by
  obtain ⟨source, hsource, hany⟩ := List.any_eq_true.1 hfixed
  obtain ⟨own, hown, hname⟩ := (Option.any_eq_true _ _).1 hany
  obtain ⟨known, hknown, hsources, htables⟩ := h.names.known
  obtain ⟨⟨keys, tables⟩, hmem, hk⟩ := exists_of_mem_left hknown hsource
  rcases hk.fixed hown with ⟨t, ht, htname⟩ | hentry
  · refine h.knows_table (t := t) ?_ (Text.sameName_trans htname hname)
    rw [htables]
    exact List.mem_append_right _ (List.mem_flatMap.2 ⟨_, hmem, ht⟩)
  · have hentry : ⟨own, none⟩ ∈ d.sources := by
      rw [hsources]
      exact List.mem_append_right _ (List.mem_flatMap.2 ⟨_, hmem, hentry⟩)
    exact h.knows_derived hentry rfl hname

/-- What is found by a name of a table is a table of the block. -/
theorem knows_entry {entry : SourceName} (hentry : entry ∈ d.sources) {id : EntityId}
    {name : String} (htable : entry.table = some (id, name)) : b.knows name = true := by
  obtain ⟨known, hknown, hsources, htables⟩ := h.names.known
  rw [hsources] at hentry
  obtain ⟨⟨keys, tables⟩, hmem, hentry⟩ := List.mem_flatMap.1 hentry
  obtain ⟨source, -, hk⟩ := exists_of_mem_right hknown hmem
  rcases hk.leads hentry with ⟨t, ht, heq⟩ | ⟨hnone, -⟩
  · rw [htable] at heq
    cases heq
    refine h.knows_table (t := t) ?_ (Text.sameName_refl _)
    rw [htables]
    exact List.mem_append_right _ (List.mem_flatMap.2 ⟨_, hmem, ht⟩)
  · rw [hnone] at htable
    cases htable

/-- The block knows what a column that names a known source is written with. -/
theorem knows_found {entry : SourceName} (hfound : d.source? a = some entry) (column : String)
    {r : Reference} (hr : r ∈ referencesIn (d.columnText ⟨some a, column⟩)) :
    b.knows r.source = true := by
  simp only [Draft.columnText, hfound, Option.bind_some] at hr
  rw [Draft.source?] at hfound
  have hentry := List.mem_of_find?_eq_some hfound
  have hkey := List.find?_some hfound
  cases htable : entry.table with
  | some table =>
    rw [htable] at hr
    rw [source_of_columnRef hr]
    exact h.knows_entry hentry htable
  | none =>
    rw [htable] at hr
    rw [source_of_columnRef hr]
    exact h.knows_derived hentry htable hkey

/-- Where no known source has a name of the `FROM` clause, the clause fixes it. -/
theorem knows_unfound (hfound : d.source? a = none) (hown : k.givesAlias a || k.fixesName a) :
    b.knows a = true := by
  rcases Bool.or_eq_true _ _ ▸ hown with hgives | hfixes
  · obtain ⟨source, hsource, hany⟩ := List.any_eq_true.1 hgives
    obtain ⟨x, hx, hxa⟩ := (Option.any_eq_true _ _).1 hany
    obtain ⟨entry, hentry, rfl⟩ := h.names.alias_known hsource hx
    exact absurd hxa (List.find?_eq_none.1 hfound entry hentry)
  · exact h.knows_fixed hfixes

/-- The block knows the source of a column that names one of the `FROM` clause. -/
theorem knows_column {c : ColumnName}
    (hown : ∀ a ∈ c.qualifier, k.givesAlias a || k.fixesName a) {r : Reference}
    (hr : r ∈ referencesIn (d.columnText c)) : b.knows r.source = true := by
  obtain ⟨qualifier, column⟩ := c
  cases qualifier with
  | none =>
    unfold Draft.columnText at hr
    cases howner : d.owner? column with
    | none =>
      rw [howner] at hr
      dsimp only at hr
      rw [referencesIn, (refers_quoteName column).references] at hr
      cases hr
    | some t =>
      rw [howner] at hr
      rw [source_of_columnRef hr]
      exact h.knows_table (owner_mem howner) (Text.sameName_refl _)
  | some a =>
    cases hfound : d.source? a with
    | some entry => exact h.knows_found hfound column hr
    | none =>
      simp only [Draft.columnText, hfound, Option.bind_none] at hr
      rw [source_of_columnRef hr]
      exact h.knows_unfound hfound (hown a rfl)

end Clauses.DepictedWith

/-! ## All levels -/

/-- Every column that is written with a source before it names one of the `FROM` clause: a table, by
its name or by its alias, or a nested query. -/
def Clauses.NamesOwn (k : Clauses) : Prop :=
  ∀ c, .column c ∈ k.pieces → ∀ a ∈ c.qualifier, k.givesAlias a || k.fixesName a

/-- The reference stands in a text that is kept as it is, and no source has its name for good. -/
def Clauses.KeepsUnfixed (k : Clauses) (r : Reference) : Prop :=
  ∃ text, .kept text ∈ k.pieces ∧ r ∈ referencesIn text ∧ k.fixesName r.source = false

/-- The block knows the source of every column that its texts refer to, but for references that the
clauses keep. -/
def Clauses.KnownIn (k : Clauses) (b : Block) : Prop :=
  ∀ text ∈ b.texts, ∀ r ∈ referencesIn text, b.knows r.source = true ∨ k.KeepsUnfixed r

/-- Reading a block off a select whose columns name its own sources. -/
theorem ofReading_knownIn :
    OfReading fun k b => (∀ p ∈ k.pieces, p.isClosed) → k.NamesOwn → k.KnownIn b := by
  intro s nested q n b n' k hread hk hclosed hown
  obtain ⟨k', hk', ⟨rfl, -⟩ | ⟨n₁, d, hsources, hdepicted⟩⟩ := readBlock_goes hread
  · intro text htext
    cases htext
  · cases hk.symm.trans hk'
    have h : k.DepictedWith s d b := ⟨readSources_known k.sources tablesThere_empty hsources,
      readSources_derivedThere k.sources hsources tablesThere_empty derivedThere_empty, hdepicted⟩
    intro text htext r hr
    have hpieces : r ∈ k.pieces.flatMap d.referencesOf := by
      rw [← hdepicted.composed.references hclosed]
      exact List.mem_flatMap.2 ⟨text, htext, hr⟩
    obtain ⟨p, hp, hr⟩ := List.mem_flatMap.1 hpieces
    cases p with
    | column c => exact .inl (h.knows_column (hown c hp) hr)
    | kept text =>
      cases hfixed : k.fixesName r.source with
      | true => exact .inl (h.knows_fixed hfixed)
      | false => exact .inr ⟨text, hp, hr, hfixed⟩

end Sql

/-- The columns of clauses are texts of the block. -/
theorem Block.mem_texts {b : Block} {x : String} (h : x ∈ b.clauseColumns) : x ∈ b.texts := by
  simp only [clauseColumns, List.mem_append, List.mem_map] at h
  simp only [texts, List.mem_append, List.mem_flatMap, List.mem_map]
  rcases h with ((⟨f, hf, rfl⟩ | h) | ⟨y, hy, rfl⟩) | h
  · exact .inl (.inl (.inl (.inl ⟨f, hf, List.mem_cons_self⟩)))
  · exact .inl (.inl (.inl (.inr h)))
  · exact .inl (.inl (.inr ⟨y, hy, List.mem_cons_self⟩))
  · exact .inl (.inr h)

namespace Sql

variable {dialect : Dialect} {catalog : Catalog} {text : String} {q : Query} {c : Canvas}
  {n n' : Nat}

/-- **If all columns of a query that are written with a source name one of their own select, the
diagnosis of its canvas takes a column for one of an unknown table exactly where its block knows
nothing by what stands before its last point, and either that is not the source that the column
refers to, or the column is part of a text that is kept as it stands with a name that no source has
for good.**  All quotes must be closed in such texts. -/
theorem saysUnknownTable_iff_misread (hparse : Query.parse dialect text = .ok q)
    (h : Gives (readText dialect catalog text) n c n')
    (hclosed : ∀ k ∈ q.allLevels, ∀ p ∈ k.pieces, p.isClosed)
    (hown : ∀ k ∈ q.allLevels, k.NamesOwn) :
    (∃ f ∈ c.diagnose, f.SaysUnknownTable) ↔
      ∃ k b, (k, b) ∈ q.allLevels.zip c.blocks ∧
        ∃ x ∈ b.clauseColumns, Diagnosis.isKnown b x = false ∧
          (¬TellsSource x ∨ ∃ r ∈ referencesIn x, k.KeepsUnfixed r) := by
  obtain ⟨q', hq, hread⟩ := gives_readText.1 h
  cases hparse.symm.trans hq
  have hlevels := readCanvas_levels_of ofReading_knownIn hread
  rw [Canvas.saysUnknownTable_iff]
  constructor
  · rintro ⟨b, hb, x, hx, hunknown⟩
    rw [← List.map_snd_zip (Nat.le_of_eq hlevels.length_eq.symm)] at hb
    obtain ⟨⟨k, b⟩, hkb, rfl⟩ := List.mem_map.1 hb
    refine ⟨k, b, hkb, x, hx, hunknown, ?_⟩
    by_cases htells : TellsSource x
    · obtain ⟨name, hname, hnot⟩ := Diagnosis.isKnown_eq_false_iff.1 hunknown
      have hsource : name ∈ (referencesIn x).map (·.source) := by
        rw [show (referencesIn x).map (·.source) = _ from htells, hname]
        exact List.mem_singleton_self name
      obtain ⟨r, hr, rfl⟩ := List.mem_map.1 hsource
      have hk := (List.of_mem_zip hkb).1
      have hknown := List.forall₂_zip hlevels hkb (hclosed k hk) (hown k hk) x (Block.mem_texts hx)
      refine .inr ⟨r, hr, (hknown r hr).resolve_left ?_⟩
      rw [hnot]
      decide
    · exact .inl htells
  · rintro ⟨k, b, hkb, x, hx, hunknown, -⟩
    exact ⟨b, (List.of_mem_zip hkb).2, x, hx, hunknown⟩

/-- A query that calls its table by an alias. -/
def aliasedText : String :=
  "SELECT COUNT(*) FROM t o WHERE o.b = 1 GROUP BY o.a HAVING SUM(o.c) > 2 ORDER BY o.a"

/-- What is written of it on a canvas. -/
def aliasedPieces : List Piece :=
  [.column ⟨some "o", "b"⟩, .column ⟨some "o", "a"⟩, .column ⟨some "o", "c"⟩, .kept "2",
    .column ⟨some "o", "a"⟩]

/-- Columns that are written with the alias of a table are known where they stand alone. -/
theorem saysUnknownTable_none : ∃ q c n',
    Query.parse .generic aliasedText = .ok q ∧ Gives (readText .generic .empty aliasedText) 0 c n' ∧
    (∀ k ∈ q.allLevels, k.pieces = aliasedPieces ∧ k.NamesOwn) ∧
    ¬∃ f ∈ c.diagnose, f.SaysUnknownTable := by
  obtain ⟨q, c, n', hparse, hread, hlevels, hcolumns⟩ := exists_of_readsAs aliasedText
    (p := fun levels => levels.all fun k => k.givesAlias "o" && decide (k.pieces = aliasedPieces))
    (r := fun c => c.blocks.all fun b => b.clauseColumns.all fun x => decide (TellsSource x))
    (by decide +kernel)
  simp only [List.all_eq_true, Bool.and_eq_true, decide_eq_true_eq] at hlevels hcolumns
  have hown : ∀ k ∈ q.allLevels, k.NamesOwn := by
    intro k hk x hx a ha
    have hqualifier : ∀ x, .column x ∈ aliasedPieces → x.qualifier = some "o" := by
      simp [aliasedPieces]
    rw [(hlevels k hk).2] at hx
    rw [hqualifier x hx] at ha
    cases ha
    rw [(hlevels k hk).1, Bool.true_or]
  have hclosed : ∀ k ∈ q.allLevels, ∀ p ∈ k.pieces, p.isClosed := by
    intro k hk
    rw [(hlevels k hk).2]
    decide +kernel
  refine ⟨q, c, n', hparse, hread, fun k hk => ⟨(hlevels k hk).2, hown k hk⟩, fun htold => ?_⟩
  obtain ⟨k, b, hkb, x, hx, -, hmisread | ⟨r, -, text, htext, hr, -⟩⟩ :=
    (saysUnknownTable_iff_misread hparse hread hclosed hown).1 htold
  · exact hmisread (hcolumns b (List.of_mem_zip hkb).2 x hx)
  · -- The only text that is kept is a number.
    rw [(hlevels k (List.of_mem_zip hkb).1).2] at htext
    have hnumber : text = "2" := by simpa [aliasedPieces] using htext
    have hempty : referencesIn "2" = [] := by decide +kernel
    rw [hnumber, hempty] at hr
    cases hr

/-- The last point stands in the call, so that more than the table stands before it. -/
theorem saysUnknownTable_call : ∃ q c n',
    Query.parse .generic "SELECT t.a FROM t ORDER BY COUNT(t.a)" = .ok q ∧
    Gives (readText .generic .empty "SELECT t.a FROM t ORDER BY COUNT(t.a)") 0 c n' ∧
    (∀ k ∈ q.allLevels, k.fixesName "t" ∧ k.pieces = [.column ⟨some "t", "a"⟩]) ∧
    ∃ f ∈ c.diagnose, f.SaysUnknownTable := by
  obtain ⟨q, c, n', hparse, hread, hlevels, htold⟩ := exists_of_readsAs
    "SELECT t.a FROM t ORDER BY COUNT(t.a)"
    (p := fun levels => levels.all fun k =>
      k.fixesName "t" && decide (k.pieces = [.column ⟨some "t", "a"⟩]))
    (r := fun c => c.diagnose.any fun f => decide f.SaysUnknownTable) (by decide +kernel)
  simp only [List.all_eq_true, Bool.and_eq_true, decide_eq_true_eq] at hlevels
  simp only [List.any_eq_true, decide_eq_true_eq] at htold
  exact ⟨q, c, n', hparse, hread, hlevels, htold⟩

end Sql

end QueryCanvas
