import QueryCanvas.Proofs.Reading.Clauses
import QueryCanvas.Proofs.Sql.WrittenValues

/-!
# Values that are read back

The value of a filter is written without regard to the dialect of the query.  A text in which it is
compared with a column is read back as a filter with this very value in every dialect, unless the
dialect gives the backslashes of the value a meaning.
-/

set_option autoImplicit false

namespace QueryCanvas.Sql

open Drafting

/-! ## Reading a select with one condition -/

section Reading

variable {catalog : Catalog} {s : Scope} {n : Nat} {d : Draft}

/-- The draft behind the source. -/
def sourceDraft (catalog : Catalog) (n : Nat) : Draft where
  block := Block.empty.addTable (Table.create (.minted n) "t" (catalog.columns "t") default)
  sources := [⟨"t", some (.minted n, "t")⟩]
  aliases := []

theorem goes_source :
    Goes (readSources ⟨catalog, []⟩ [.mk tableT []]) n Draft.empty () (n + 1)
      (sourceDraft catalog n) := by
  have hname : plainPath [.bare "t"] = "t" := rfl
  have hnew : Block.empty.tableNamed? "t" = none := rfl
  simp [readSource, readTable, readSources, readJoins, hname, hnew, sourceDraft, Table.create,
    Draft.empty]

theorem columnName?_columnA : (Expr.column columnA).columnName? = some ⟨some "t", "a"⟩ := rfl

theorem goes_result {id : EntityId} (h : d.source? "t" = some ⟨"t", some (id, "t")⟩) :
    Goes (readResults s [.expr (.column columnA) none]) n d () n
      { d with block := d.block.updateTable id (·.select (d.declared id "a")) } := by
  simp [goes_readResults, readColumn, columnName?_columnA, readItems, selectionOwner, h]

/-- The filter of the condition. -/
def conditionFilter (d : Draft) (n : Nat) (c : Comparison) (l : Literal) : Filter where
  id := .minted n
  column := d.columnText ⟨some "t", "a"⟩
  operator := c.toFilterOperator
  operand := .value l.value
  connector := .and

theorem goes_condition (c : Comparison) (l : Literal) :
    Goes (readCondition s (some (conditionExpr c l))) n d () (n + 1)
      { d with block := d.block.addFilter (conditionFilter d n c l) } := by
  have hliteral := l.literal_expr
  rw [conditionExpr]
  -- a literal is no nested query, whatever it is
  rcases l with _ | ⟨_ | _ | _, _, _⟩ | _ <;>
    simp_all [readCondition, Literal.expr, readFilters, filterOperator?, addFilter, readSubject,
      columnName?_columnA, conditionFilter]

/-- The draft behind the column. -/
def columnDraft (catalog : Catalog) (n : Nat) : Draft :=
  let drawn := sourceDraft catalog n
  { drawn with
    block := drawn.block.updateTable (.minted n) (·.select (drawn.declared (.minted n) "a")) }

/-- The draft behind all clauses. -/
def oneFilterDraft (catalog : Catalog) (n : Nat) (c : Comparison) (l : Literal) : Draft :=
  let chosen := columnDraft catalog n
  { chosen with block := chosen.block.addFilter (conditionFilter chosen (n + 1) c l) }

theorem goes_oneCondition (c : Comparison) (l : Literal) {sx : SelectExtras} (hx : sx.Accepted)
    (hall : sx.groupAll = false) (hmodifiers : sx.groupModifiers = []) :
    Goes (readSelect ⟨catalog, []⟩ [.expr (.column columnA) none] [.mk tableT []]
        (some (conditionExpr c l)) [] none sx none none)
      n Draft.empty () (n + 2) (oneFilterDraft catalog n c l) := by
  have hfirst : (sourceDraft catalog n).source? "t" = some ⟨"t", some (.minted n, "t")⟩ := by
    simp [Draft.source?, sourceDraft, Text.sameName]
  refine goes_readSelect.2 ⟨hx, _, _, goes_source, _, _, goes_result hfirst, _, _,
    goes_condition c l, ?_⟩
  simp [hall, hmodifiers, readGrouping, readHavings, readSorting, readLimit, oneFilterDraft,
    columnDraft]

/-- The block behind all clauses has no nested blocks, and the one filter. -/
theorem filters_oneFilterDraft (catalog : Catalog) (n : Nat) (c : Comparison) (l : Literal) :
    (oneFilterDraft catalog n c l).block.blocks.flatMap (·.filters)
      = [conditionFilter (columnDraft catalog n) (n + 1) c l] := by
  rw [Block.blocks_eq]
  rfl

/-- A canvas is read off the select, and it has the one filter. -/
theorem gives_oneCondition (catalog : Catalog) (n : Nat) (c : Comparison) (l : Literal) :
    ∃ canvas n' f, Gives (readCanvas catalog (oneConditionQuery (conditionExpr c l))) n canvas n' ∧
      canvas.blocks.flatMap (·.filters) = [f] ∧ f.operator = c.toFilterOperator ∧
      f.operand = .value l.value := by
  refine ⟨⟨[], (oneFilterDraft catalog n c l).block⟩, n + 2,
    conditionFilter (columnDraft catalog n) (n + 1) c l, ?_, ?_, rfl, rfl⟩
  · rw [oneConditionQuery, readCanvas]
    simp only [Gives.guard_iff, Gives.bind_iff, readCtes, Gives.pure_iff]
    refine ⟨by simp, [], n, ⟨rfl, rfl⟩, _, n + 2, ?_, rfl, rfl⟩
    refine gives_readBlock_select.2 ⟨by simp, rfl, rfl, ?_⟩
    rw [if_neg (by simp [isEmptySelect])]
    exact ⟨_, goes_oneCondition c l ⟨rfl, rfl, rfl, rfl, rfl, rfl⟩ rfl rfl, rfl⟩
  · simpa [Canvas.blocks] using filters_oneFilterDraft catalog n c l

end Reading

/-! ## Reading a written value -/

/-- The text in which a column is compared with the value gives exactly one filter, with the
comparison and the value. -/
def ReadsBack (d : Dialect) (catalog : Catalog) (n : Nat) (c : Comparison) (v : String) : Prop :=
  ∃ canvas n' f,
    Gives (readText d catalog ("SELECT t.a FROM t WHERE t.a " ++ c.sql ++ " " ++ formatValue v))
      n canvas n' ∧
    canvas.blocks.flatMap (·.filters) = [f] ∧ f.operator = c.toFilterOperator ∧
      f.operand = .value v

variable {d : Dialect} {v : String}

/-- Whatever the text behind the comparison is cut into gives exactly one filter, with the value of
this literal. -/
theorem gives_literal (catalog : Catalog) (n : Nat) (c : Comparison) {w : String} {l : Literal}
    (h : Lexer.CutInto d (maskedChars w.toList) (some l.tokens)) :
    ∃ canvas n' f, Gives (readText d catalog (literalPrefix c ++ w)) n canvas n' ∧
      canvas.blocks.flatMap (·.filters) = [f] ∧ f.operator = c.toFilterOperator ∧
      f.operand = .value l.value := by
  obtain ⟨canvas, n', f, hread, hfilter⟩ := gives_oneCondition catalog n c l
  exact ⟨canvas, n', f, gives_readText.2 ⟨_, parse_literal c h, hread⟩, hfilter⟩

/-- A value is read back exactly if it is the value of the literal into which its text is cut. -/
theorem readsBack_iff_of_cutInto (catalog : Catalog) (n : Nat) (c : Comparison) {l : Literal}
    (h : Lexer.CutInto d (maskedChars (formatValue v).toList) (some l.tokens)) :
    ReadsBack d catalog n c v ↔ l.value = v := by
  obtain ⟨canvas, n', f, hread, hfilter, hoperator, hvalue⟩ := gives_literal catalog n c h
  constructor
  · rintro ⟨canvas', n'', f', hread', hfilter', -, hvalue'⟩
    cases hread.symm.trans hread'
    obtain rfl : f = f' := by simpa [hfilter] using hfilter'
    simpa [hvalue] using hvalue'
  · rintro rfl
    exact ⟨canvas, n', f, hread, hfilter, hoperator, hvalue⟩

/-- A value whose text is not cut is not read. -/
theorem not_readsBack_of_uncut {catalog : Catalog} {n : Nat} {c : Comparison}
    (h : Lexer.CutInto d (maskedChars (formatValue v).toList) none) :
    ¬ReadsBack d catalog n c v := by
  rintro ⟨canvas, n', f, hread, -⟩
  obtain ⟨q, hparse, -⟩ := gives_readText.1 hread
  exact nomatch (parse_uncut c h).symm.trans hparse

/-- A value without quotes is read back only where its backslashes have no meaning. -/
theorem keepsValue_of_readsBack {catalog : Catalog} {n : Nat} {c : Comparison}
    (hquote : '\'' ∉ v.toList) (h : ReadsBack d catalog n c v) : KeepsValue d v := by
  intro hslash hparameter hnumber
  have hdoubled : doubled '\'' v.toList = v.toList := doubled_eq_self hquote
  have hwritten : maskedChars (formatValue v).toList = '\'' :: (v.toList ++ ['\'']) := by
    rw [maskedChars_formatValue hparameter, formatValue_of_quoted hparameter hnumber,
      toList_quoted, hdoubled]
    rfl
  have hkeeps := body?_quoted_iff d v.toList
  rw [hdoubled] at hkeeps
  cases hbody : Lexer.body? d '\'' d.hasBackslash (v.toList ++ ['\'']) with
  | none =>
    have hcut := Lexer.cutInto_unended hbody
    rw [← hwritten] at hcut
    exact absurd h (not_readsBack_of_uncut hcut)
  | some r =>
    obtain ⟨out, rest⟩ := r
    obtain rfl : rest = [] := body?_ends hquote (by rw [← hslash]; exact hbody)
    have hcut := Lexer.cutInto_text hbody
    rw [← hwritten] at hcut
    obtain rfl : String.ofList out = v :=
      (readsBack_iff_of_cutInto catalog n c (l := .quoted (String.ofList out)) hcut).1 h
    exact hkeeps.1 (by simpa using hbody) hslash

/-- A value is read back as it was written in every dialect that gives its backslashes no meaning.
For a value without quotes the backslashes are all that matters: it is read back nowhere else. -/
theorem formatValue_readsBack (d : Dialect) (catalog : Catalog) (n : Nat) (c : Comparison)
    (v : String) : (KeepsValue d v → ReadsBack d catalog n c v) ∧
      ('\'' ∉ v.toList → (ReadsBack d catalog n c v ↔ KeepsValue d v)) := by
  have hkept : KeepsValue d v → ReadsBack d catalog n c v := fun h =>
    (readsBack_iff_of_cutInto catalog n c (cutInto_formatValue h)).2 (Literal.value_ofValue v)
  exact ⟨hkept, fun hquote => ⟨keepsValue_of_readsBack hquote, hkept⟩⟩

/-- Even where a backslash escapes what follows it, quotes, openings of comments and of parameters,
line ends and the marks of patterns do no harm. -/
theorem formatValue_readsBack_pattern :
    ReadsBack .mysql .empty 1 .ne "it's -- 50\\%\n/* \x7b\x7ba" :=
  (formatValue_readsBack .mysql .empty 1 .ne _).1 fun _ _ _ => by decide +kernel

/-- Behind `a`, the letter `b` with a backslash before it is read as another character. -/
theorem backslash_misread : ¬ReadsBack .mysql .empty 1 .eq "a\\b" := by
  intro h
  have hkeeps := keepsValue_of_readsBack (by decide) h
  exact absurd (hkeeps rfl (by decide +kernel) (by decide +kernel)) (by decide)

end QueryCanvas.Sql
