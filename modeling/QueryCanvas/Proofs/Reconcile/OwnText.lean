import QueryCanvas.Proofs.Reconcile.Said
import QueryCanvas.Proofs.Sql.Layouts

/-!
# What the generated text of a block says

What a canvas means by a block is what its compact query says.  The generated text of the block says
the same where it is on a single line, and in the wide layout where its lines can each be read alone
and no query inside it has a line break of its own.  The text of a block that reads from nothing is
a comment, which says nothing.
-/

set_option autoImplicit false

namespace QueryCanvas

namespace Sql

/-! ## Layouts on a single line -/

section Plain

variable {l : Layout}

theorem clauseBreak_plain (h : l.pretty = false) : l.clauseBreak = Layout.compact.clauseBreak := by
  simp [Layout.clauseBreak, h, Layout.compact]

theorem innerBreak_plain (h : l.pretty = false) : l.innerBreak = Layout.compact.innerBreak := by
  simp [Layout.innerBreak, h, Layout.compact]

theorem cteBreak_plain (h : l.pretty = false) : l.cteBreak = Layout.compact.cteBreak := by
  simp [Layout.cteBreak, h, Layout.compact]

theorem nest_plain (h : l.pretty = false) : l.nest = Layout.compact.nest := by
  funext body
  simp [Layout.nest, h, Layout.compact]

theorem chain_plain (h : l.pretty = false) (conditions : List (String × Connector)) :
    chain l conditions = chain .compact conditions := by
  fun_induction chain l conditions with
  | case1 => rfl
  | case2 => rfl
  | case3 text connector rest hne ih =>
    rw [chain, ih, innerBreak_plain h]
    exact hne

theorem blockText_plain (h : l.pretty = false) (b : Block) (nested : List (SubqueryOf String)) :
    blockText l b nested = blockText .compact b nested := by
  have hitems : fromItem l b = fromItem .compact b := by
    funext item
    rw [fromItem, fromItem, innerBreak_plain h]
  simp only [blockText, fromClause, clauseBreak_plain h, hitems, chain_plain h]

/-- A layout on a single line has no use for its indentation. -/
theorem renderBlock_plain (h : l.pretty = false) (b : Block) :
    renderBlock l b = renderBlock .compact b := by
  induction b using Block.tree_induction with
  | step b ih =>
    have hnested : ∀ subs : List Subquery, (∀ s ∈ subs, s ∈ b.subqueries) →
        renderNested l subs = renderNested .compact subs := fun subs => by
      induction subs with
      | nil => exact fun _ => rfl
      | cons s rest hrest =>
        intro hsubs
        have hfirst := ih s (hsubs s List.mem_cons_self)
        cases s
        rw [renderNested, renderNested, nest_plain h, hfirst,
          hrest fun s hs => hsubs s (List.mem_cons_of_mem _ hs)]
    have hall := hnested b.subqueries fun _ hs => hs
    cases b
    rw [renderBlock, renderBlock, blockText_plain h, hall]

theorem render_plain (h : l.pretty = false) (c : Canvas) : render l c = render .compact c := by
  simp only [render, nest_plain h, cteBreak_plain h, clauseBreak_plain h, renderBlock_plain h]

end Plain

/-! ## Two forms of a query -/

/-- Two layouts of a query whose lines can each be read alone are parsed alike. -/
theorem parse_laid {g : Script} {w k : String} (h : Laid g w.toList k.toList)
    (hwhole : ∀ line ∈ g.lines, IsWhole line) :
    Query.parse .generic w = Query.parse .generic k := by
  obtain ⟨line, rest, hlines⟩ := List.exists_cons_of_ne_nil g.lines_ne_nil
  rw [hlines] at hwhole
  obtain ⟨ts, hw, hk⟩ := h.readsAs [] hlines (hwhole _ List.mem_cons_self)
    fun l hl => hwhole l (List.mem_cons_of_mem _ hl)
  have htokens : ∀ {s : String}, ReadsAs s.toList ts →
      tokenize? .generic (Parameter.mask s) = ts := fun {s} hs => by
    refine Lexer.CutInto.tokenize? ?_
    rw [toList_mask]
    exact hs
  rw [Query.parse, Query.parse, statements?, statements?, htokens hw, htokens hk]

/-- The comment in place of a query that reads from nothing is no query. -/
theorem parse_noTables (d : Dialect) : Query.parse d noTables = .error .malformed := by
  have hnone : (statements? d (Parameter.mask noTables)).map List.length = some 0 := by
    cases d <;> decide +kernel
  obtain ⟨statements, hstatements, hempty⟩ := Option.map_eq_some_iff.1 hnone
  rw [Query.parse, hstatements, List.length_eq_zero_iff.1 hempty]

end Sql

open Sql

namespace Canvas

variable {c : Canvas} {l : Layout} {focus : Focus}

/-- The generated text of the block of a pointer, if there is one. -/
def generated? (c : Canvas) (l : Layout) : Focus → Option String
  | .root => some (render l c)
  | focus => (c.block? focus).map (renderBlock l)

theorem generated?_plain (h : l.pretty = false) :
    c.generated? l focus = c.generated? .compact focus := by
  have hblock : renderBlock l = renderBlock .compact := funext (renderBlock_plain h)
  cases focus with
  | root => exact congrArg some (render_plain h c)
  | subquery id | cte id => simp only [generated?, hblock]

/-- The lines of the text of a block can each be read alone, and the queries inside it have no line
breaks of their own. -/
def WholeLines (c : Canvas) : Focus → Prop
  | .root => KeepsLines c ∧ ∀ line ∈ (Script.ofCanvas c).lines, IsWhole line
  | focus => ∀ b, c.block? focus = some b →
    (∀ s ∈ b.subqueries, ∀ x ∈ (renderBlock .compact s.block).toList, Unbroken x) ∧
      ∀ line ∈ (Script.ofBlock b).lines, IsWhole line

theorem parse_wide (n : Nat) (h : c.WholeLines focus) {wide compact : String}
    (hwide : c.generated? (.wide n) focus = some wide)
    (hcompact : c.generated? .compact focus = some compact) :
    Query.parse .generic wide = Query.parse .generic compact := by
  cases focus with
  | root =>
    cases hwide
    cases hcompact
    exact parse_laid (laid_render n h.1) h.2
  | subquery id | cte id =>
    obtain ⟨b, hb, rfl⟩ := Option.map_eq_some_iff.1 hwide
    obtain ⟨b', hb', rfl⟩ := Option.map_eq_some_iff.1 hcompact
    cases hb.symm.trans hb'
    obtain ⟨hunbroken, hwhole⟩ := h b hb
    have hfits : Fits (fun _ => True) (Script.ofBlock b) (renderBlock (.wide n) b)
        (renderBlock .compact b) :=
      (composes_fits _ n).ofBlock (fits_emptyNested n) fun s hs _ =>
        (fits_ofBlock n s.block (hunbroken s hs)).nest n (Script.ended_ofBlock _) (hunbroken s hs)
    exact parse_laid (hfits fun _ _ => trivial) hwhole

end Canvas

namespace Reader

open Canvas

variable {r : Reader} {c : Canvas} {focus : Focus} {n : Nat} {l : Layout}

/-- Texts that are parsed alike say the same. -/
theorem saidAt_congr {a b : String}
    (h : Query.parse r.dialect a = Query.parse r.dialect b) :
    r.saidAt c focus n a = r.saidAt c focus n b := by
  have hquery : readQuery r.dialect a = readQuery r.dialect b := by
    rw [readQuery, readQuery, h]
  cases focus <;>
    simp only [saidAt, said, shape, canvas, block, readText, readNestedText, hquery]

/-- A block that reads from nothing has a text that cannot be read. -/
theorem saidAt_noTables : r.saidAt c focus n noTables = .error .malformed := by
  have hquery : readQuery r.dialect noTables = throw .malformed := by
    rw [readQuery, parse_noTables]
  cases focus <;>
    simp only [saidAt, said, shape, canvas, block, readText, readNestedText, hquery] <;> rfl

/-- Of the generated text of a block it is enough that it can be read: it then says what the canvas
means by the block. -/
theorem says_meant_iff (hl : l.pretty = false ∨ r.dialect = .generic ∧ c.WholeLines focus)
    {text : String} (htext : c.generated? l focus = some text) :
    (∃ shape, r.saidAt c focus n text = .ok shape ∧ r.meant? c focus n = some shape) ↔
      ∃ shape, r.saidAt c focus n text = .ok shape := by
  obtain ⟨compact, drawn, hcompact, hwritten⟩ : ∃ compact drawn,
      c.generated? .compact focus = some compact ∧ c.written? focus = some (compact, drawn) := by
    cases focus with
    | root => exact ⟨_, _, rfl, rfl⟩
    | subquery id | cte id =>
      obtain ⟨b, hb, -⟩ := Option.map_eq_some_iff.1 htext
      exact ⟨_, _, Option.map_eq_some_iff.2 ⟨b, hb, rfl⟩, Option.map_eq_some_iff.2 ⟨b, hb, rfl⟩⟩
  have hsame : r.saidAt c focus n text = r.saidAt c focus n compact := by
    cases hpretty : l.pretty with
    | false =>
      rw [generated?_plain hpretty, hcompact] at htext
      rw [Option.some.inj htext]
    | true =>
      obtain ⟨hgeneric, hwhole⟩ := hl.resolve_left (by simp [hpretty])
      have hwide : l = .wide l.indent := by
        rw [Layout.wide, ← hpretty]
      rw [hwide] at htext
      refine saidAt_congr ?_
      rw [hgeneric]
      exact parse_wide l.indent hwhole htext hcompact
  constructor
  · rintro ⟨shape, hshape, -⟩
    exact ⟨shape, hshape⟩
  · rintro ⟨shape, hshape⟩
    refine ⟨shape, hshape, ?_⟩
    rw [meant?, hwritten, Option.map_some, ← hsame, hshape]
    rfl

end Reader

end QueryCanvas
