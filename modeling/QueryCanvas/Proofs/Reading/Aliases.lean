import QueryCanvas.Proofs.Reading.Levels
import QueryCanvas.Proofs.Reading.Pieces
import QueryCanvas.Proofs.Sql.References

/-!
# Which aliases are left on a canvas

A canvas has no aliases of tables, so a column is written with the name of its table instead.  This
is done where a column stands alone, or below operators and parentheses; everything else is written
as it stands in the query.  So an alias is left exactly where it stands in such a text, or where a
nested query refers to a source of a query around it.
-/

set_option autoImplicit false

namespace QueryCanvas

open Sql

/-! ## What is written on a canvas -/

/-- All columns of a canvas that are written with the name of a source. -/
def Canvas.references (c : Canvas) : List Reference :=
  c.blocks.flatMap fun b => b.texts.flatMap referencesIn

namespace Sql

/-! ## Pieces as they are written -/

/-- Quotes in the piece are closed. -/
def Piece.isClosed : Piece → Bool
  | .column _ => true
  | .kept text => Sql.isClosed text

/-- The references in a piece as it is written. -/
def Draft.referencesOf (d : Draft) : Piece → List Reference
  | .column c => referencesIn (d.columnText c)
  | .kept text => referencesIn text

/-- The text refers to what its pieces refer to. -/
def Draft.Writes (d : Draft) (text : String) (pieces : List Piece) : Prop :=
  Refers text.toList (pieces.flatMap d.referencesOf)

theorem refers_columnText (d : Draft) (c : ColumnName) :
    Refers (d.columnText c).toList (referencesIn (d.columnText c)) := by
  refine .of_isClosed ?_
  unfold Draft.columnText
  split
  · split
    · exact (refers_columnRef _ _).closed
    · exact (refers_columnRef _ _).closed
  · split
    · exact (refers_columnRef _ _).closed
    · exact (refers_quoteName _).closed

variable {d : Draft}

/-- Without a point no reference is begun. -/
theorem Scan.run_parts (cs : List Char) (h : cs.all Parameter.isNamePart) :
    ∀ part : Option (List Char), ∃ part',
      Scan.run { found := [], before := [], part, mode := .outside } cs =
        { found := [], before := [], part := part', mode := .outside } := by
  induction cs with
  | nil => exact fun part => ⟨part, rfl⟩
  | cons c cs ih =>
    intro part
    rw [List.all_cons, Bool.and_eq_true] at h
    obtain ⟨next, hnext⟩ : ∃ next,
        Scan.next { found := [], before := [], part, mode := .outside } c =
          { found := [], before := [], part := next, mode := .outside } := by
      simp only [Scan.next, Scan.outside, isWordPart_of_isNamePart h.1, if_true, Scan.word]
      cases part with
      | some cs => exact ⟨_, rfl⟩
      | none =>
        dsimp only
        split
        · exact ⟨_, rfl⟩
        · exact ⟨_, rfl⟩
    obtain ⟨part', hrun⟩ := ih h.2 next
    exact ⟨part', by rw [← hrun, ← hnext]; rfl⟩

theorem refers_word {cs : List Char} (h : cs.all Parameter.isNamePart) : Refers cs [] := by
  obtain ⟨part, hrun⟩ := Scan.run_parts cs h none
  refine ⟨?_, ?_⟩ <;> rw [Scan.start, hrun]
  · rfl
  · rfl

theorem isSeparator_of_isDivider {c : Char} (h : isDivider c) : isSeparator c := by
  simp only [isDivider, Bool.or_eq_true, beq_iff_eq] at h
  obtain ((rfl | rfl) | rfl) | rfl := h <;> decide

/-- A text that is put together from pieces refers to what they refer to. -/
theorem Draft.Composed.writes {text : String} {ps : List Piece} (h : d.Composed text ps)
    (hclosed : ∀ p ∈ ps, p.isClosed) : d.Writes text ps := by
  induction h with
  | piece p =>
    have hp := hclosed p (List.mem_singleton_self p)
    cases p with
    | column c => simpa [Writes, referencesOf, pieceText] using refers_columnText d c
    | kept text => simpa [Writes, referencesOf, pieceText] using Refers.of_isClosed hp
  | name n => exact refers_quoteName n
  | word hw => exact refers_word hw
  | star => exact ⟨rfl, rfl⟩
  | @append x y ps ps' c hc _ _ ihx ihy =>
    have hboth := Refers.append (isSeparator_of_isDivider hc)
      (ihx fun p hp => hclosed p (List.mem_append_left _ hp))
      (ihy fun p hp => hclosed p (List.mem_append_right _ hp))
    simpa [Writes] using hboth

/-- Texts that are put together from pieces refer to what the pieces refer to. -/
theorem Draft.ComposedAll.references {texts : List String} {ps : List Piece}
    (h : d.ComposedAll texts ps) (hclosed : ∀ p ∈ ps, p.isClosed) :
    texts.flatMap referencesIn = ps.flatMap d.referencesOf := by
  induction h with
  | nil => rfl
  | @cons text texts ps ps' hfirst _ ih =>
    have hwrites := hfirst.writes fun p hp => hclosed p (List.mem_append_left _ hp)
    rw [List.flatMap_cons, List.flatMap_append,
      ih fun p hp => hclosed p (List.mem_append_right _ hp)]
    exact congrArg (· ++ _) hwrites.references

/-- What is known of the members of a list goes into what relates them to others. -/
theorem forall₂_imp_mem {α β : Type} {R S : α → β → Prop} {l : List α} {l' : List β}
    (h : l.Forall₂ R l') (himp : ∀ a ∈ l, ∀ b, R a b → S a b) : l.Forall₂ S l' := by
  induction h with
  | nil => exact .nil
  | cons hfirst _ ih =>
    exact .cons (himp _ List.mem_cons_self _ hfirst)
      (ih fun a ha => himp a (List.mem_cons_of_mem _ ha))

/-! ## What a name refers to -/

/-- The alias of a plain table. -/
def Source.tableAlias? : Source → Option String
  | .table _ _ named _ => named.map (·.name.value)
  | _ => none

/-- The name of a plain table, or the alias of a nested query. -/
def Source.fixedName? : Source → Option String
  | .table name _ _ _ => some (plainPath name)
  | .derived _ _ named => named.map (·.name.value)
  | _ => none

namespace Clauses

/-- A source of the `FROM` clause is a plain table with this alias, in any case. -/
def givesAlias (k : Clauses) (a : String) : Bool :=
  k.allSources.any fun source => source.tableAlias?.any (Text.sameName · a)

/-- A table of the `FROM` clause, or a nested query in it, has this name, in any case. -/
def fixesName (k : Clauses) (a : String) : Bool :=
  k.allSources.any fun source => source.fixedName?.any (Text.sameName · a)

/-- A piece that keeps the name on the canvas: a column of that source, which is no table in the
`FROM` clause of the same query, or text in which the name stands before a column. -/
def keeps (k : Clauses) (a : String) : Piece → Bool
  | .column c => c.qualifier.any (Text.sameName · a) && !k.givesAlias a
  | .kept text => (referencesIn text).any (Text.sameName ·.source a)

end Clauses

variable {s : Scope} {k : Clauses} {d : Draft} {a : String}

/-- What is found by a name of a source: a table, by its alias or by its own name, or a nested
query, by its alias. -/
theorem Source.Known.named {source : Source} {keys : List SourceName} {tables : List Table}
    (h : source.Known keys tables) {entry : SourceName} (hentry : entry ∈ keys) :
    (∃ id name own, entry.table = some (id, name) ∧ source.fixedName? = some own ∧
        Text.sameName name own ∧
          (source.tableAlias? = some entry.key ∨ Text.sameName entry.key own)) ∨
      entry.table = none ∧ source.fixedName? = some entry.key := by
  cases h with
  | @table name arguments named marks t hname =>
    refine .inl ⟨t.id, t.name, plainPath name, ?_⟩
    rcases List.mem_append.1 hentry with hentry | hentry
    · obtain ⟨x, rfl, rfl⟩ := Option.map_eq_some_iff.1 (Option.mem_toList.1 hentry)
      exact ⟨rfl, rfl, hname, .inl rfl⟩
    · rw [List.mem_singleton.1 hentry]
      exact ⟨rfl, rfl, hname, .inr hname⟩
  | derived =>
    obtain ⟨x, rfl, rfl⟩ := Option.map_eq_some_iff.1 (Option.mem_toList.1 hentry)
    exact .inr ⟨rfl, rfl⟩

/-- The names of a table that is drawn. -/
theorem Source.Known.table_named {source : Source} {keys : List SourceName} {tables : List Table}
    (h : source.Known keys tables) {t : Table} (ht : t ∈ tables) :
    ∃ own, source.fixedName? = some own ∧ Text.sameName t.name own := by
  cases h with
  | @table name arguments named marks u hname =>
    rw [List.mem_singleton.1 ht]
    exact ⟨_, rfl, hname⟩
  | derived => cases ht

/-- A table is known by its alias. -/
theorem Source.Known.alias_known {source : Source} {keys : List SourceName} {tables : List Table}
    (h : source.Known keys tables) {x : String} (hx : source.tableAlias? = some x) :
    ∃ entry ∈ keys, entry.key = x := by
  cases h with
  | @table name arguments named marks t hname =>
    obtain ⟨y, rfl, rfl⟩ := Option.map_eq_some_iff.1 hx
    exact ⟨_, List.mem_append_left _ (List.mem_singleton_self _), rfl⟩
  | derived => cases hx

section

variable {sources : List Source} {equalities : List (JoinKind × Expr)}

theorem FromDepicted.entry_known (h : FromDepicted s Draft.empty sources equalities d)
    {entry : SourceName} (hentry : entry ∈ d.sources) :
    ∃ source ∈ sources, ∃ keys tables, source.Known keys tables ∧ entry ∈ keys := by
  obtain ⟨known, hknown, hsources, -⟩ := h.known
  rw [hsources] at hentry
  obtain ⟨⟨keys, tables⟩, hmem, hentry⟩ := List.mem_flatMap.1 hentry
  obtain ⟨source, hsource, hk⟩ := exists_of_mem_right hknown hmem
  exact ⟨source, hsource, keys, tables, hk, hentry⟩

theorem FromDepicted.table_known (h : FromDepicted s Draft.empty sources equalities d)
    {t : Table} (ht : t ∈ d.block.tables) :
    ∃ source ∈ sources, ∃ own, source.fixedName? = some own ∧ Text.sameName t.name own := by
  obtain ⟨known, hknown, -, htables⟩ := h.known
  rw [htables] at ht
  obtain ⟨⟨keys, tables⟩, hmem, ht⟩ := List.mem_flatMap.1 ht
  obtain ⟨source, hsource, hk⟩ := exists_of_mem_right hknown hmem
  exact ⟨source, hsource, hk.table_named ht⟩

theorem FromDepicted.alias_known (h : FromDepicted s Draft.empty sources equalities d)
    {source : Source} (hsource : source ∈ sources) {x : String} (hx : source.tableAlias? = some x) :
    ∃ entry ∈ d.sources, entry.key = x := by
  obtain ⟨known, hknown, hsources, -⟩ := h.known
  obtain ⟨k, hmem, hk⟩ := exists_of_mem_left hknown hsource
  obtain ⟨entry, hentry, hkey⟩ := hk.alias_known hx
  rw [hsources]
  exact ⟨entry, List.mem_flatMap.2 ⟨k, hmem, hentry⟩, hkey⟩

end

/-- The table of a column that is written without one is a table of the block. -/
theorem owner_mem {column : String} {t : Table} (h : d.owner? column = some t) :
    t ∈ d.block.tables := by
  unfold Draft.owner? at h
  split at h
  · rename_i htables _
    cases h
    rw [htables]
    exact List.mem_singleton_self _
  · split at h
    · rename_i howners
      cases h
      have hmem : _ ∈ d.owners column := howners ▸ List.mem_singleton_self _
      exact List.mem_of_mem_filter hmem
    · cases h

/-- A written column refers to a source of one name only. -/
theorem any_columnRef (table column a : String) :
    (referencesIn (columnRef table column)).any (Text.sameName ·.source a) =
      Text.sameName table a := by
  rw [referencesIn, (refers_columnRef table column).references, List.any_cons, List.any_nil,
    Bool.or_false]

/-- A name that no source has for good is not the name of a source, however it is written. -/
theorem not_fixed {source : Source} {name own : String} (hfixed : k.fixesName a = false)
    (hsource : source ∈ k.allSources) (hown : source.fixedName? = some own)
    (hname : Text.sameName name own) : Text.sameName name a = false := by
  rw [Bool.eq_false_iff]
  intro hsame
  rw [Text.sameName_comm] at hname
  have hany : k.fixesName a :=
    List.any_eq_true.2 ⟨source, hsource, by rw [hown]; exact Text.sameName_trans hname hsame⟩
  rw [hfixed] at hany
  cases hany

theorem givesAlias_of {source : Source} {x : String} (hsource : source ∈ k.allSources)
    (hx : source.tableAlias? = some x) (hxa : Text.sameName x a) : k.givesAlias a = true :=
  List.any_eq_true.2 ⟨source, hsource, by rw [hx]; exact hxa⟩

theorem Clauses.not_givesAlias (k : Clauses)
    (h : ∀ source ∈ k.allSources, ∀ x, source.tableAlias? = some x → ¬Text.sameName x a) :
    k.givesAlias a = false := by
  rw [Bool.eq_false_iff]
  intro hgives
  obtain ⟨source, hsource, hany⟩ := List.any_eq_true.1 hgives
  cases hx : source.tableAlias? with
  | none =>
    rw [hx] at hany
    cases hany
  | some x =>
    rw [hx] at hany
    exact h source hsource x hx hany

/-- A column that is written without a source refers to a table by its own name, if at all. -/
theorem unqualified_keeps (h : FromDepicted s Draft.empty k.allSources k.allEqualities d)
    (hfixed : k.fixesName a = false) (column : String) :
    (referencesIn (d.columnText ⟨none, column⟩)).any (Text.sameName ·.source a) = false := by
  unfold Draft.columnText
  cases howner : d.owner? column with
  | none =>
    dsimp only
    rw [referencesIn, (refers_quoteName column).references]
    rfl
  | some t =>
    obtain ⟨source, hsource, own, hown, hname⟩ := h.table_known (owner_mem howner)
    dsimp only
    rw [any_columnRef]
    exact not_fixed hfixed hsource hown hname

/-- A column with a source keeps the name of the source exactly if it is not the alias of a
table. -/
theorem qualified_keeps (h : FromDepicted s Draft.empty k.allSources k.allEqualities d)
    (hfixed : k.fixesName a = false) (qualifier column : String) :
    (referencesIn (d.columnText ⟨some qualifier, column⟩)).any (Text.sameName ·.source a) =
      (Text.sameName qualifier a && !k.givesAlias a) := by
  unfold Draft.columnText
  dsimp only
  cases hfound : d.source? qualifier with
  | none =>
    rw [Option.bind_none]
    dsimp only
    rw [any_columnRef]
    cases hsame : Text.sameName qualifier a with
    | false => rfl
    | true =>
      rw [k.not_givesAlias fun source hsource x hx hxa => ?_]
      · rfl
      · obtain ⟨entry, hentry, rfl⟩ := h.alias_known hsource hx
        rw [Text.sameName_comm] at hsame
        exact List.find?_eq_none.1 hfound entry hentry (Text.sameName_trans hxa hsame)
  | some entry =>
    have hfind := hfound
    rw [Draft.source?] at hfind
    have hkey := List.find?_some hfind
    obtain ⟨source, hsource, keys, tables, hknown, hentry⟩ :=
      h.entry_known (List.mem_of_find?_eq_some hfind)
    rcases hknown.named hentry with ⟨id, name, own, htable, hown, hname, hcalled⟩ | ⟨hnone, hown⟩
    · rw [Option.bind_some, htable]
      dsimp only
      rw [any_columnRef, not_fixed hfixed hsource hown hname]
      cases hsame : Text.sameName qualifier a with
      | false => rfl
      | true =>
        have hkeyed := Text.sameName_trans hkey hsame
        rcases hcalled with halias | hown'
        · rw [givesAlias_of hsource halias hkeyed]
          rfl
        · rw [not_fixed hfixed hsource hown hown'] at hkeyed
          cases hkeyed
    · rw [Option.bind_some, hnone]
      dsimp only
      rw [Text.sameName_comm] at hkey
      rw [any_columnRef, not_fixed hfixed hsource hown hkey]
      rfl

/-- A piece refers to a source of that name, as it is written, exactly if it keeps the name. -/
theorem piece_keeps (h : FromDepicted s Draft.empty k.allSources k.allEqualities d)
    (hfixed : k.fixesName a = false) (p : Piece) :
    (d.referencesOf p).any (Text.sameName ·.source a) = k.keeps a p := by
  cases p with
  | kept text => rfl
  | column c =>
    obtain ⟨qualifier, column⟩ := c
    cases qualifier with
    | none => exact unqualified_keeps h hfixed column
    | some qualifier => exact qualified_keeps h hfixed qualifier column

/-! ## All levels -/

/-- A block refers to a source of that name exactly if a piece of its level keeps the name. -/
theorem Clauses.ReadAs.keeps {b : Block} (h : k.ReadAs b) (hclosed : ∀ p ∈ k.pieces, p.isClosed)
    (hfixed : k.fixesName a = false) :
    (b.texts.flatMap referencesIn).any (Text.sameName ·.source a) = k.pieces.any (k.keeps a) := by
  rcases h with ⟨rfl, rfl⟩ | ⟨s, d, hfrom, hdepicted⟩
  · rfl
  · rw [hdepicted.composed.references hclosed, List.any_flatMap]
    congr 1
    funext p
    exact piece_keeps hfrom hfixed p

variable {dialect : Dialect} {catalog : Catalog} {text : String} {q : Query} {c : Canvas}
  {n n' : Nat}

/-- A canvas that is read off a text refers to a source by an alias exactly if a piece of one of the
levels of the query keeps it: a text that is written as it stands and holds a column with the alias,
or such a column at a level whose own `FROM` clause gives the alias to no table.  All quotes must be
closed in the texts that are written as they stand. -/
theorem aliases_left_iff (hparse : Query.parse dialect text = .ok q)
    (h : Gives (readText dialect catalog text) n c n')
    (hclosed : ∀ k ∈ q.allLevels, ∀ p ∈ k.pieces, p.isClosed)
    (hfixed : ∀ k ∈ q.allLevels, k.fixesName a = false) :
    (∃ r ∈ c.references, Text.sameName r.source a) ↔
      ∃ k ∈ q.allLevels, ∃ p ∈ k.pieces, k.keeps a p := by
  obtain ⟨q', hq, hread⟩ := gives_readText.1 h
  cases hparse.symm.trans hq
  have hlevels := forall₂_imp_mem (readCanvas_levels hread) fun k hk b hb =>
    hb.keeps (a := a) (hclosed k hk) (hfixed k hk)
  have hany : c.references.any (Text.sameName ·.source a) =
      q.allLevels.any fun k => k.pieces.any (k.keeps a) := by
    rw [Canvas.references, List.any_flatMap]
    revert hlevels
    generalize c.blocks = blocks
    generalize q.allLevels = levels
    intro hlevels
    induction hlevels with
    | nil => rfl
    | cons hfirst _ ih => rw [List.any_cons, List.any_cons, hfirst, ih]
  have hiff : c.references.any (Text.sameName ·.source a) = true ↔
      (q.allLevels.any fun k => k.pieces.any (k.keeps a)) = true := by rw [hany]
  simpa only [List.any_eq_true] using hiff

/-- A text is a query, and what is said of its levels and of the references on its canvas holds. -/
def reads (text : String) (p : List Clauses → Bool) (r : List Reference → Bool) : Bool :=
  readsAs text p fun c => r c.references

theorem exists_of_reads (text : String) {p : List Clauses → Bool} {r : List Reference → Bool}
    (h : reads text p r = true) : ∃ q c n', Query.parse .generic text = .ok q ∧
      Gives (readText .generic .empty text) 0 c n' ∧ p q.allLevels ∧ r c.references :=
  exists_of_readsAs text h

/-- Columns that stand alone or below operators and parentheses lose the alias. -/
theorem aliases_left_none : ∃ q c n',
    Query.parse .generic "SELECT SUM(o.x * 2) FROM t o" = .ok q ∧
    Gives (readText .generic .empty "SELECT SUM(o.x * 2) FROM t o") 0 c n' ∧
    (∃ k ∈ q.allLevels, k.givesAlias "o") ∧ ¬∃ r ∈ c.references, Text.sameName r.source "o" := by
  obtain ⟨q, c, n', hparse, hread, hlevels, -⟩ := exists_of_reads
    "SELECT SUM(o.x * 2) FROM t o" (r := fun _ => true)
    (p := fun levels => levels.any (·.givesAlias "o") && levels.all fun k =>
      k.pieces.all Piece.isClosed && !k.fixesName "o" && !k.pieces.any (k.keeps "o"))
    (by decide +kernel)
  simp only [Bool.and_eq_true, List.any_eq_true, List.all_eq_true, Bool.not_eq_true',
    Bool.not_eq_true, List.any_eq_false] at hlevels
  obtain ⟨hgives, hall⟩ := hlevels
  refine ⟨q, c, n', hparse, hread, hgives, fun hleft => ?_⟩
  obtain ⟨k, hk, p, hp, hkeeps⟩ := (aliases_left_iff hparse hread (fun k hk => (hall k hk).1.1)
    fun k hk => (hall k hk).1.2).1 hleft
  rw [(hall k hk).2 p hp] at hkeeps
  cases hkeeps

/-- Below a call the alias is left, although nothing else has its name. -/
theorem alias_left_in_call : ∃ q c n',
    Query.parse .generic "SELECT SUM(ABS(o.x)) FROM t o" = .ok q ∧
    Gives (readText .generic .empty "SELECT SUM(ABS(o.x)) FROM t o") 0 c n' ∧
    (∃ k ∈ q.allLevels, k.givesAlias "o") ∧ (∀ k ∈ q.allLevels, k.fixesName "o" = false) ∧
    c.references = [⟨"o", "x"⟩] := by
  obtain ⟨q, c, n', hparse, hread, hlevels, hreferences⟩ := exists_of_reads
    "SELECT SUM(ABS(o.x)) FROM t o" (r := (· == [⟨"o", "x"⟩]))
    (p := fun levels => levels.any (·.givesAlias "o") && levels.all (!·.fixesName "o"))
    (by decide +kernel)
  simp only [Bool.and_eq_true, List.any_eq_true, List.all_eq_true, Bool.not_eq_true'] at hlevels
  exact ⟨q, c, n', hparse, hread, hlevels.1, hlevels.2, beq_iff_eq.1 hreferences⟩

end Sql

end QueryCanvas
