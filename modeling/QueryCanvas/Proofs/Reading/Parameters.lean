import QueryCanvas.Proofs.Reading.Drawn
import QueryCanvas.Proofs.Reading.Literals
import QueryCanvas.Proofs.Sql.WrittenParameters

/-!
# Which parameters a canvas takes over from a query

What stands in a query as it is, other than a column, is kept with the parameters in it.  A literal
with which a column is compared is kept as its value, whether it stood between quotes or not, and
written as a parameter if it looks like one.  All other names and texts of a query get on the canvas
without parameters or not at all.  So the parameters in the query of a canvas are told by the parts
of the query that it was read off.
-/

set_option autoImplicit false

namespace QueryCanvas

open Sql Parameter

namespace Sql

/-! ## Parts of a query in which parameters can stand -/

/-- The text of a piece that is kept as it stands. -/
def Piece.keptText : Piece → List String
  | .column _ => []
  | .kept text => [text]

/-- The value with which a condition compares a column. -/
def Expr.comparedValue? (e : Expr) : Option String := e.comparand?.bind (·.literal.toOption)

namespace Clauses

/-- The texts of the clauses that are kept as they stand. -/
def keptTexts (k : Clauses) : List String := k.pieces.flatMap Piece.keptText

/-- The values and limits of the clauses that are parameters. -/
def parameters (k : Clauses) : List String :=
  (k.conditions.filterMap (·.1.comparedValue?)).filter isParameter
    ++ ((k.limit.bind (·.limit.toOption)).bind Limit.parameter?).toList

/-- The clauses read from something, and the texts that are kept as they stand are complete. -/
structure Legible (k : Clauses) : Prop where
  source : k.sources ≠ []
  complete : ∀ text ∈ k.keptTexts, Complete text

instance (k : Clauses) : Decidable k.Legible :=
  decidable_of_iff (k.sources.isEmpty = false ∧ ∀ text ∈ k.keptTexts, Complete text)
    ⟨fun h => ⟨by simpa using h.1, h.2⟩, fun h => ⟨by simpa using h.1, h.2⟩⟩

end Clauses

/-! ## Texts -/

variable {d : Draft}

/-- A column as it is written has no parameters. -/
theorem Draft.shows_columnText (d : Draft) (c : ColumnName) : Shows (d.columnText c) ∅ := by
  unfold Draft.columnText
  split
  · split
    · exact shows_columnRef _ _
    · exact shows_columnRef _ _
  · split
    · exact shows_columnRef _ _
    · exact shows_quoteName _

theorem plain_of_isDivider {c : Char} (h : isDivider c) : isPlainText (String.singleton c) := by
  simp only [isDivider, Bool.or_eq_true, beq_iff_eq] at h
  rcases h with ((rfl | rfl) | rfl) | rfl <;> rfl

/-- A text has the parameters of the pieces from which it is put together. -/
theorem Draft.Composed.shows {text : String} {ps : List Piece} (h : d.Composed text ps)
    (hps : ∀ kept ∈ ps.flatMap Piece.keptText, Complete kept) :
    Shows text (shownAmong (ps.flatMap Piece.keptText)) := by
  induction h with
  | piece p =>
    cases p with
    | column c => exact (d.shows_columnText c).congr (by simp [shownAmong, Piece.keptText])
    | kept text =>
      exact (hps text (by simp [Piece.keptText])).shows.congr
        (by simp [shownAmong, Piece.keptText])
  | name n => exact (shows_quoteName n).congr (by simp [shownAmong])
  | word hw =>
    have hplain := List.all_eq_true.2 fun c hc =>
      isPlain_of_isNamePart (List.all_eq_true.1 hw c hc)
    exact (Shows.plain hplain).congr (by simp [shownAmong])
  | star =>
    have hstar : Shows "*" ∅ := Complete.shows_nothing (by decide +kernel) (by decide +kernel)
    exact hstar.congr (by simp [shownAmong])
  | append hc _ _ ihx ihy =>
    rw [List.flatMap_append] at hps ⊢
    obtain ⟨hx, hy⟩ := List.forall_mem_append.1 hps
    refine ((ihx hx).separated _ (plain_of_isDivider hc) (by simp) (ihy hy)).congr fun name => ?_
    simp [shownAmong, or_and_right, exists_or]

theorem Draft.ComposedAll.shows {texts : List String} {ps : List Piece} (h : d.ComposedAll texts ps)
    (hps : ∀ kept ∈ ps.flatMap Piece.keptText, Complete kept) :
    (∀ text ∈ texts, Complete text) ∧
      shownAmong texts = shownAmong (ps.flatMap Piece.keptText) := by
  induction h with
  | nil => exact ⟨by simp, rfl⟩
  | cons hfirst _ ih =>
    rw [List.flatMap_append] at hps ⊢
    obtain ⟨hhead, htail⟩ := List.forall_mem_append.1 hps
    obtain ⟨hcomplete, hnames⟩ := ih htail
    have hshows := hfirst.shows hhead
    refine ⟨List.forall_mem_cons.2 ⟨hshows.toComplete, hcomplete⟩, ?_⟩
    rw [shownAmong_cons, shownAmong_append, hshows.shown, hnames]

/-! ## Values and limits -/

/-- A filter whose operator takes no value, or with a nested query, is written without a literal. -/
theorem literal?_eq_none {f : Filter} (h : ¬f.operator.TakesValue ∨ f.operand.value? = none) :
    f.literal? = none := by
  unfold Filter.literal?
  split
  · exact h.resolve_left (not_not_intro ‹_›)
  · rfl

theorem literal?_of_takesValue {f : Filter} {value : String} (hop : f.operator.TakesValue)
    (hoperand : f.operand = .value value) : f.literal? = some value := by
  rw [Filter.literal?, if_pos hop, hoperand]
  rfl

theorem comparedValue?_of_literal {e right : Expr} {value : String}
    (hright : e.comparand? = some right) (hvalue : right.literal = .ok value) :
    e.comparedValue? = some value := by
  rw [Expr.comparedValue?, hright, Option.bind_some, hvalue]
  rfl

/-- A filter holds a value that is a parameter exactly if its condition compares with it. -/
theorem literal?_of_depicts {f : Filter} : ∀ {e : Expr}, f.Depicts d e →
    f.literal?.filter isParameter = e.comparedValue?.filter isParameter
  | .binary subject op right, h => by
    cases right with
    | subquery q =>
      obtain ⟨-, -, id, hoperand⟩ := h
      rw [literal?_eq_none (.inr (by rw [hoperand]; rfl))]
      rfl
    | _ =>
      obtain ⟨-, hop, value, hvalue, hoperand⟩ := h
      rw [literal?_of_takesValue (takesValue_of_filterOperator? hop) hoperand,
        comparedValue?_of_literal rfl hvalue]
  | .like anyCase negated _ _ _ _, ⟨_, hop, value, hvalue, hoperand⟩ => by
    rw [literal?_of_takesValue (hop ▸ takesValue_likeOperator anyCase negated) hoperand,
      comparedValue?_of_literal rfl hvalue]
  | .test _ _, ⟨_, _, hoperand⟩ => by
    have hempty : isParameter "" = false := rfl
    unfold Filter.literal?
    rw [hoperand]
    split <;> simp [Operand.value?, Expr.comparedValue?, Expr.comparand?, hempty]
  | .inList _ negated _, ⟨_, hop, _⟩ => by
    have hlist : ¬f.operator.TakesValue := by
      rw [hop]
      cases negated <;> decide
    rw [literal?_eq_none (.inl hlist)]
    rfl
  | .inQuery _ _ _, ⟨_, _, id, hoperand⟩ => by
    rw [literal?_eq_none (.inr (by rw [hoperand]; rfl))]
    rfl
  | .between _ negated _ _, ⟨_, hop, _⟩ => by
    have hrange : ¬f.operator.TakesValue := by
      rw [hop]
      cases negated <;> decide
    rw [literal?_eq_none (.inl hrange)]
    rfl

theorem isParameter_of_limit {e : Expr} {text : String}
    (h : e.limit.toOption = some (.parameter text)) : isParameter text := by
  unfold Expr.limit at h
  split at h
  · dsimp only at h
    split at h <;> cases h
  · split at h
    · rename_i hparameter
      cases h
      exact hparameter
    · cases h
  · cases h

/-- Values of filters that are parameters are those of the conditions. -/
theorem parameters_of_depicts {es : List (Expr × Connector)} {fs : List Filter}
    (h : es.Forall₂ (fun e f => f.Depicts d e.1 ∧ f.connector = e.2) fs) :
    (fs.filterMap Filter.literal?).filter isParameter =
      (es.filterMap (·.1.comparedValue?)).filter isParameter := by
  rw [List.filter_filterMap, List.filter_filterMap]
  induction h with
  | nil => rfl
  | cons hfirst _ ih =>
    rw [List.filterMap_cons, List.filterMap_cons, literal?_of_depicts hfirst.1, ih]

/-- A filter that compares with a nested query is not one without a right-hand side. -/
theorem isUnary_of_depicts {f : Filter} {id : EntityId} (hoperand : f.operand = .subquery id) :
    ∀ {e : Expr}, f.Depicts d e → f.operator.isUnary = false
  | .binary _ _ _, h => (takesValue_of_filterOperator? h.of_binary.2).1
  | .like _ _ _ _ _ _, ⟨_, _, _, _, hvalue⟩ => by
    rw [hoperand] at hvalue
    cases hvalue
  | .test _ _, ⟨_, _, hvalue⟩ => by
    rw [hoperand] at hvalue
    cases hvalue
  | .inList _ _ _, ⟨_, _, hvalue⟩ => by
    rw [hoperand] at hvalue
    cases hvalue
  | .inQuery _ negated _, ⟨_, hop, _⟩ => by
    rw [hop]
    cases negated <;> rfl
  | .between _ _ _ _, ⟨_, _, hvalue⟩ => by
    rw [hoperand] at hvalue
    cases hvalue

/-- In a block that depicts clauses, the filter that compares with a nested query is written with
it. -/
theorem linked?_of_drawn {s : Scope} {k : Clauses} {b : Block} {lo hi : Nat} {ctes : List EntityId}
    (hdepicted : k.Depicted s d b) (hdrawn : b.Drawn lo hi ctes) {r : Subquery}
    (hr : r ∈ b.subqueries) (hrole : r.role = .whereClause) :
    ∃ f ∈ b.filters, f.linked? b.subqueries = some r := by
  obtain ⟨f, hf, hoperand⟩ := hdrawn.compared r hr hrole
  obtain ⟨e, -, hdepicts, -⟩ := exists_of_mem_right hdepicted.filters hf
  refine ⟨f, hf, ?_⟩
  rw [Filter.linked?, if_neg (by simp [isUnary_of_depicts hoperand hdepicts]), hoperand]
  exact find?_of_nodup hdrawn.nestedIds.nodup hr

/-! ## Levels -/

/-- Everything is written of a block that legible clauses are read as, and its parameters are those
of the clauses. -/
structure Clauses.WrittenAs (k : Clauses) (b : Block) : Prop where
  legible : b.Legible
  source : b.hasNoSource = false
  shown : b.shown = shownAmong (k.keptTexts ++ k.parameters)

theorem ofReading_writtenAs : OfReading fun k b => k.Legible → k.WrittenAs b := by
  intro s nested q n b n' k h hk hlegible
  have hdrawn := (Block.everywhere_iff.1 ((readBlock_drawn s nested q n).result b n' h)).1
  obtain ⟨k', hk', ⟨-, rfl⟩ | ⟨n₁, d, hsources, hdepicted⟩⟩ := readBlock_goes h
  · cases hk.symm.trans hk'
    exact absurd rfl hlegible.source
  · cases hk.symm.trans hk'
    obtain ⟨hcomplete, hnames⟩ := hdepicted.composed.shows hlegible.complete
    have hsource := hdepicted.hasNoSource (readSources_hasNoSource hlegible.source hsources)
    refine ⟨⟨?_, hcomplete, ?_, ?_⟩, hsource, ?_⟩
    · intro hempty
      rw [hsource] at hempty
      cases hempty
    · intro text htext
      rw [hdepicted.limit] at htext
      obtain ⟨e, -, hlimit⟩ := Option.bind_eq_some_iff.1 htext
      exact isParameter_of_limit hlimit
    · exact fun r hr hrole => linked?_of_drawn hdepicted hdrawn hr hrole
    · rw [Block.shown, shownAmong_append, shownAmong_append, hnames, Block.parameters,
        parameters_of_depicts hdepicted.filters, hdepicted.limit]
      rfl

/-- A parameter of the query of the canvas is one of what gets on the canvas. -/
theorem mem_names_render_iff {dialect : Dialect} {catalog : Catalog} {text : String} {q : Query}
    {c : Canvas} {n n' : Nat} (hparse : Query.parse dialect text = .ok q)
    (h : Gives (readText dialect catalog text) n c n') (hlegible : ∀ k ∈ q.allLevels, k.Legible)
    (name : String) : name ∈ names (render .compact c) ↔
      ∃ k ∈ q.allLevels, ∃ written ∈ k.keptTexts ++ k.parameters, name ∈ names written := by
  obtain ⟨q', hparse', hread⟩ := gives_readText.1 h
  cases hparse.symm.trans hparse'
  have hlevels := readCanvas_levels_of ofReading_writtenAs hread
  have hblock : ∀ b ∈ c.blocks, ∃ k ∈ q.allLevels, k.WrittenAs b := fun b hb => by
    obtain ⟨k, hk, hwritten⟩ := exists_of_mem_right hlevels hb
    exact ⟨k, hk, hwritten (hlegible k hk)⟩
  have hroot : c.root.hasNoSource = false := by
    obtain ⟨k, -, hwritten⟩ := hblock c.root (List.mem_append_left _ (Block.self_mem_blocks _))
    exact hwritten.source
  have hall : ∀ b ∈ c.blocks, b.Legible := fun b hb => by
    obtain ⟨k, -, hwritten⟩ := hblock b hb
    exact hwritten.legible
  have hmem : name ∈ names (render .compact c) ↔ ∃ b ∈ c.blocks, name ∈ b.shown :=
    (Set.ext_iff.1 (shows_render hall hroot).shown name).trans (by simp)
  rw [hmem]
  constructor
  · rintro ⟨b, hb, hname⟩
    obtain ⟨k, hk, hwritten⟩ := hblock b hb
    rw [hwritten.shown] at hname
    exact ⟨k, hk, hname⟩
  · rintro ⟨k, hk, hname⟩
    obtain ⟨b, hb, hwritten⟩ := exists_of_mem_left hlevels hk
    refine ⟨b, hb, ?_⟩
    rw [(hwritten (hlegible k hk)).shown]
    exact hname

/-- In whatever text a canvas is read off, if the selects in it read from something and what is kept
as it stands is complete: the parameters in the query of the canvas are those in the texts that are
kept as they stand, the values of comparisons that are parameters, with or without quotes around
them, and the limits that are.  So they are the parameters of the text exactly if each of those
stands in such a part, and none of these parts has another one. -/
theorem parameters_written_iff {dialect : Dialect} {catalog : Catalog} {text : String} {q : Query}
    {c : Canvas} {n n' : Nat} (hparse : Query.parse dialect text = .ok q)
    (h : Gives (readText dialect catalog text) n c n')
    (hlegible : ∀ k ∈ q.allLevels, k.Legible) :
    (∀ name, name ∈ names (render .compact c) ↔
      ∃ k ∈ q.allLevels, ∃ written ∈ k.keptTexts ++ k.parameters, name ∈ names written) ∧
    ((∀ name, name ∈ names (render .compact c) ↔ name ∈ names text) ↔
      (∀ name ∈ names text, ∃ k ∈ q.allLevels, ∃ written ∈ k.keptTexts ++ k.parameters,
        name ∈ names written) ∧
      ∀ k ∈ q.allLevels, ∀ written ∈ k.keptTexts ++ k.parameters, ∀ name ∈ names written,
        name ∈ names text) := by
  have hwritten := mem_names_render_iff hparse h hlegible
  refine ⟨hwritten, fun hsame => ⟨fun name hname => ?_, fun k hk written hw name hname => ?_⟩, ?_⟩
  · exact (hwritten name).1 ((hsame name).2 hname)
  · exact (hsame name).1 ((hwritten name).2 ⟨k, hk, written, hw, hname⟩)
  · rintro ⟨hkept, hadded⟩ name
    rw [hwritten]
    constructor
    · rintro ⟨k, hk, written, hw, hname⟩
      exact hadded k hk written hw name hname
    · exact hkept name

/-- A text with parameters in an aggregate, in a comparison and as the limit of a nested query. -/
def parametersKept : String :=
  "SELECT SUM(F(\x7b\x7ba\x7d\x7d)) FROM t WHERE x = \x7b\x7bb\x7d\x7d " ++
    "AND y IN (SELECT z FROM u LIMIT \x7b\x7bc\x7d\x7d)"

/-- All of them are written, and no others. -/
theorem parameters_written_sample : ∃ q c n', Query.parse .generic parametersKept = .ok q ∧
    Gives (readText .generic .empty parametersKept) 0 c n' ∧ (∀ k ∈ q.allLevels, k.Legible) ∧
    names (render .compact c) = names parametersKept ∧
    (∀ name, name ∈ names (render .compact c) ↔
      ∃ k ∈ q.allLevels, ∃ written ∈ k.keptTexts ++ k.parameters, name ∈ names written) ∧
    (∀ name ∈ names parametersKept, ∃ k ∈ q.allLevels, ∃ written ∈ k.keptTexts ++ k.parameters,
      name ∈ names written) ∧
    ∀ k ∈ q.allLevels, ∀ written ∈ k.keptTexts ++ k.parameters, ∀ name ∈ names written,
      name ∈ names parametersKept := by
  obtain ⟨q, c, n', hparse, hread, hlegible, hnames⟩ := exists_of_readsAs parametersKept
    (p := fun levels => levels.all (·.Legible))
    (r := fun c => names (render .compact c) == names parametersKept) (by decide +kernel)
  simp only [List.all_eq_true, decide_eq_true_eq] at hlegible
  have hequal := beq_iff_eq.1 hnames
  obtain ⟨hwritten, hsame⟩ := parameters_written_iff hparse hread hlegible
  exact ⟨q, c, n', hparse, hread, hlegible, hequal, hwritten,
    hsame.1 fun name => by rw [hequal]⟩

/-- A parameter between quotes is none in the text that is read, but one in the text that is
written. -/
theorem quoted_becomes_parameter :
    let text := "SELECT t.a FROM t WHERE t.a = '\x7b\x7bx\x7d\x7d'"
    names text = [] ∧ ∃ c n', Gives (readText .generic .empty text) 0 c n' ∧
      names (render .compact c) = ["x"] := by
  intro text
  obtain ⟨q, c, n', -, hread, -, hnames⟩ := exists_of_readsAs text (p := fun _ => true)
    (r := fun c => names (render .compact c) == ["x"]) (by decide +kernel)
  exact ⟨by decide +kernel, c, n', hread, beq_iff_eq.1 hnames⟩

end Sql

end QueryCanvas
