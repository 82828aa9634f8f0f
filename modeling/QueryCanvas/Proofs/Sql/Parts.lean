import QueryCanvas.Proofs.Sql.Script
import QueryCanvas.Proofs.Text.Words

/-!
# The words of a written query

In every layout a query has the words of its places written with one space at each gap.  Inside the
parentheses of nested queries a wide layout has blanks and the compact one has none, so these are
the only places where the layouts have different words.  Cut at them, a query falls into parts that
are found in every layout.
-/

set_option autoImplicit false

namespace QueryCanvas.Sql

open Text (SameWords wordsOf plainChars isBlank)

/-! ## A query with one space at each gap -/

/-- What a layout has between the parentheses of a nested query and the query: a blank or
nothing. -/
def Layout.padding (l : Layout) : List Char := if l.pretty then [' '] else []

/-- What is written at a place, with the given blanks inside the parentheses. -/
def Glyph.written (padding : List Char) : Glyph → List Char
  | .char c => [c]
  | .gap => [' ']
  | .opening => '(' :: padding
  | .closing => padding ++ [')']

namespace Script

/-- The query with one space at each gap and the given blanks inside the parentheses. -/
def written (padding : List Char) (g : Script) : List Char := g.flatMap (Glyph.written padding)

variable {padding : List Char}

theorem written_cons (x : Glyph) (g : Script) :
    written padding (x :: g) = x.written padding ++ g.written padding := rfl

theorem written_append (g g' : Script) :
    (g ++ g').written padding = g.written padding ++ g'.written padding :=
  List.flatMap_append

theorem written_text (s : String) : (text s).written padding = s.toList := by
  rw [written, text, List.flatMap_map]
  exact List.flatMap_singleton' _

/-- Puts a character in front of the first of some texts. -/
def addFirst (c : Char) : List (List Char) → List (List Char)
  | [] => [[c]]
  | first :: rest => (c :: first) :: rest

/-- The parts of a query between the insides of its parentheses: a parenthesis of a nested query
belongs to the text around it. -/
def parts : Script → List (List Char)
  | [] => [[]]
  | .char c :: g => addFirst c (parts g)
  | .gap :: g => addFirst ' ' (parts g)
  | .opening :: g => ['('] :: parts g
  | .closing :: g => [] :: addFirst ')' (parts g)

end Script

/-! ## The words of the two layouts -/

/-- The text of a part of a query in a layout has the words of the part. -/
def Layout.Words (l : Layout) (g : Script) (w : String) : Prop :=
  SameWords w.toList (g.written l.padding)

namespace Layout

variable {l : Layout} {g g' : Script} {w w' : String}

theorem words_text (s : String) : l.Words (.text s) s := by
  rw [Words, Script.written_text]
  exact .refl _

theorem Words.append (h : l.Words g w) (h' : l.Words g' w') : l.Words (g ++ g') (w ++ w') := by
  rw [Words, Script.written_append, String.toList_append]
  exact SameWords.append h h'

theorem words_gap {c : Char} {rest : List Char} (hw : w.toList = c :: rest) (hc : isBlank c)
    (hrest : ∀ x ∈ rest, isBlank x) : l.Words [.gap] w := by
  rw [Words, hw]
  exact .blanks hc (by decide) hrest (by simp)

theorem words_clauseBreak (l : Layout) : l.Words [.gap] l.clauseBreak := by
  unfold clauseBreak
  split
  · exact words_gap (by rfl) (by decide) (by simp)
  · exact words_gap (by rfl) (by decide) (by simp)

theorem words_innerBreak (l : Layout) : l.Words [.gap] l.innerBreak := by
  unfold innerBreak
  split
  · have hbreak : ("\n" ++ l.pad).toList = '\n' :: List.replicate l.indent ' ' := by
      simp [pad]
    refine words_gap hbreak (by decide) ?_
    intro x hx
    rw [List.eq_of_mem_replicate hx]
    decide
  · exact words_gap (by rfl) (by decide) (by simp)

theorem words_cteBreak (l : Layout) : l.Words (Script.text "," ++ [.gap]) l.cteBreak := by
  have hbreak : l.cteBreak = "," ++ l.clauseBreak := by
    unfold cteBreak clauseBreak
    split <;> rfl
  rw [hbreak]
  exact (words_text ",").append (words_clauseBreak l)

theorem composes_words (l : Layout) : Composes l l fun g w _ => l.Words g w where
  text s := words_text s
  append h h' := h.append h'
  clauseGap := words_clauseBreak l
  innerGap := words_innerBreak l
  cteGap := words_cteBreak l

/-- Moving the lines of a text in changes no words. -/
theorem wordsOf_indentLines (l : Layout) (s : String) :
    wordsOf (l.indentLines s).toList = wordsOf s.toList := by
  have hline (line : String) :
      wordsOf (if line.isEmpty then "" else l.pad ++ line).toList = wordsOf line.toList := by
    split
    · rename_i h
      rw [String.isEmpty_iff.1 h]
    · rw [String.toList_append]
      refine Text.wordsOf_blanks (fun x hx => ?_) _
      rw [pad, String.toList_ofList] at hx
      rw [List.eq_of_mem_replicate hx]
      decide
  rw [indentLines, String.toList_intercalate, List.map_map,
    show ("\n" : String).toList = ['\n'] from rfl, Text.wordsOf_intercalate (by decide),
    List.flatMap_map]
  simp only [Function.comp_apply, hline]
  exact Text.wordsOf_lines s

theorem Words.nest (h : l.Words g w) : l.Words g.nest (l.nest w) := by
  have hnest : g.nest.written l.padding =
      ['('] ++ (l.padding ++ (g.written l.padding ++ l.padding)) ++ [')'] := by
    simp [Script.nest, Script.written, Glyph.written]
  rw [Words, hnest]
  unfold Layout.nest
  split
  · rename_i hpretty
    have hinside : SameWords ('\n' :: ((l.indentLines w).toList ++ ['\n']))
        (' ' :: (g.written l.padding ++ [' '])) :=
      .between (by decide) (by decide) ((wordsOf_indentLines l w).trans (SameWords.words h))
    have := ((SameWords.refl ['(']).append hinside).append (.refl [')'])
    simpa [padding, hpretty] using this
  · rename_i hpretty
    have := ((SameWords.refl ['(']).append h).append (.refl [')'])
    simpa [padding, hpretty] using this

end Layout

/-- Each layout of a block has the words of its query. -/
theorem words_renderBlock (l : Layout) (b : Block) :
    l.Words (Script.ofBlock b) (renderBlock l b) := by
  induction b using Block.tree_induction with
  | step b ih =>
    exact (Layout.composes_words l).ofBlock (Layout.words_text emptyNested).nest
      fun s hs => (ih s hs).nest

/-- **Each layout of a canvas has the words of its query.** -/
theorem words_render (l : Layout) (c : Canvas) :
    wordsOf (render l c).toList = wordsOf ((Script.ofCanvas c).written l.padding) :=
  SameWords.words ((Layout.composes_words l).ofCanvas
    (fun q _ => (words_renderBlock l q.block).nest) (words_renderBlock l c.root))

/-! ## Parts -/

namespace Script

variable {padding : List Char}

theorem parts_cons (g : Script) : ∃ first rest, g.parts = first :: rest := by
  cases g with
  | nil => exact ⟨[], [], rfl⟩
  | cons x g =>
    cases x with
    | char c | gap | closing =>
      simp only [parts]
      cases parts g <;> exact ⟨_, _, rfl⟩
    | opening => exact ⟨_, _, rfl⟩

/-- A query begins with its first part and holds all of them, whatever stands inside its
parentheses. -/
theorem parts_written (g : Script) : ∃ first rest, g.parts = first :: rest ∧
    first <+: g.written padding ∧ ∀ part ∈ rest, part <:+: g.written padding := by
  induction g with
  | nil => exact ⟨[], [], rfl, List.nil_prefix, by simp⟩
  | cons x g ih =>
    obtain ⟨first, rest, hparts, hfirst, hrest⟩ := ih
    have hbehind {part : List Char} (h : part <:+: written padding g) :
        part <:+: written padding (x :: g) :=
      h.trans (written_cons x g ▸ (List.suffix_append _ _).isInfix)
    cases x with
    | char c =>
      refine ⟨c :: first, rest, by rw [parts, hparts, addFirst], ?_,
        fun p hp => hbehind (hrest p hp)⟩
      exact List.cons_prefix_cons.2 ⟨rfl, hfirst⟩
    | gap =>
      refine ⟨' ' :: first, rest, by rw [parts, hparts, addFirst], ?_,
        fun p hp => hbehind (hrest p hp)⟩
      exact List.cons_prefix_cons.2 ⟨rfl, hfirst⟩
    | opening =>
      refine ⟨['('], first :: rest, by rw [parts, hparts], ?_, fun p hp => ?_⟩
      · exact List.cons_prefix_cons.2 ⟨rfl, List.nil_prefix⟩
      · rcases List.mem_cons.1 hp with rfl | hp
        · exact hbehind hfirst.isInfix
        · exact hbehind (hrest p hp)
    | closing =>
      refine ⟨[], (')' :: first) :: rest, by rw [parts, hparts, addFirst], List.nil_prefix,
        fun p hp => ?_⟩
      rcases List.mem_cons.1 hp with rfl | hp
      · refine (List.cons_prefix_cons.2 ⟨rfl, hfirst⟩).isInfix.trans ?_
        rw [written_cons, Glyph.written, List.append_assoc]
        exact (List.suffix_append _ _).isInfix
      · exact hbehind (hrest p hp)

theorem infix_of_mem_parts {g : Script} {part : List Char} (h : part ∈ g.parts) :
    part <:+: g.written padding := by
  obtain ⟨first, rest, hparts, hfirst, hrest⟩ := parts_written g
  rw [hparts] at h
  rcases List.mem_cons.1 h with rfl | h
  · exact hfirst.isInfix
  · exact hrest part h

/-- What has no parenthesis is found behind a text and in a query only if it is found in a part, the
text belonging to the first of them. -/
theorem found_in_parts (hpadding : ∀ c ∈ padding, isBlank c) {cs : List Char}
    (hopen : '(' ∉ plainChars cs) (hclose : ')' ∉ plainChars cs) (g : Script) (before : List Char)
    (h : plainChars cs <:+: plainChars (before ++ g.written padding)) :
    ∃ first rest, g.parts = first :: rest ∧ (plainChars cs <:+: plainChars (before ++ first) ∨
      ∃ part ∈ rest, plainChars cs <:+: plainChars part) := by
  induction g generalizing before with
  | nil => exact ⟨[], [], rfl, .inl h⟩
  | cons x g ih =>
    cases x with
    | char c =>
      obtain ⟨first, rest, hparts, hfound⟩ := ih (before ++ [c])
        (by rwa [written_cons, ← List.append_assoc] at h)
      exact ⟨c :: first, rest, by rw [parts, hparts, addFirst], by simpa using hfound⟩
    | gap =>
      obtain ⟨first, rest, hparts, hfound⟩ := ih (before ++ [' '])
        (by rwa [written_cons, ← List.append_assoc] at h)
      exact ⟨' ' :: first, rest, by rw [parts, hparts, addFirst], by simpa using hfound⟩
    | opening =>
      have hsplit : before ++ written padding (.opening :: g) =
          before ++ '(' :: (padding ++ written padding g) := rfl
      rw [hsplit] at h
      obtain ⟨first, rest, hparts⟩ := parts_cons g
      refine ⟨['('], first :: rest, by rw [parts, hparts], ?_⟩
      rcases Text.plainChars_infix_append (by decide) (by decide) hopen h with h | h
      · exact .inl (h.trans (Text.infix_plainChars (List.prefix_append _ _).isInfix))
      · rw [Text.plainChars_congr (Text.wordsOf_blanks hpadding _)] at h
        obtain ⟨_, _, hparts', h⟩ := ih [] h
        rw [hparts] at hparts'
        obtain ⟨rfl, rfl⟩ := List.cons.inj hparts'
        rcases h with h | ⟨part, hpart, h⟩
        · exact .inr ⟨first, by simp, h⟩
        · exact .inr ⟨part, by simp [hpart], h⟩
    | closing =>
      have hsplit : before ++ written padding (.closing :: g) =
          (before ++ padding) ++ ')' :: written padding g := by
        rw [written_cons, Glyph.written, List.append_assoc, List.append_assoc]
        rfl
      rw [hsplit] at h
      obtain ⟨first, rest, hparts⟩ := parts_cons g
      refine ⟨[], (')' :: first) :: rest, by rw [parts, hparts, addFirst], ?_⟩
      rcases Text.plainChars_infix_append (by decide) (by decide) hclose h with h | h
      · rw [Text.plainChars_congr (Text.wordsOf_append_blanks hpadding _)] at h
        exact .inl (by rwa [List.append_nil])
      · obtain ⟨_, _, hparts', h⟩ := ih [] h
        rw [hparts] at hparts'
        obtain ⟨rfl, rfl⟩ := List.cons.inj hparts'
        rcases h with h | ⟨part, hpart, h⟩
        · exact .inr ⟨')' :: first, by simp,
            h.trans (Text.infix_plainChars (List.suffix_cons _ _).isInfix)⟩
        · exact .inr ⟨part, by simp [hpart], h⟩

/-- A query without nested queries is a single part. -/
theorem parts_eq_written {g : Script} (h : ∀ x ∈ g, x ≠ .opening ∧ x ≠ .closing) :
    g.parts = [g.written padding] := by
  induction g with
  | nil => rfl
  | cons x g ih =>
    have hx := h x (by simp)
    have hrest := ih fun y hy => h y (by simp [hy])
    cases x with
    | char c => rw [parts, hrest]; rfl
    | gap => rw [parts, hrest]; rfl
    | opening => exact absurd rfl hx.1
    | closing => exact absurd rfl hx.2

/-- The query of a canvas with no named and no nested queries has no parentheses around queries. -/
theorem not_nested_ofCanvas {c : Canvas} (hctes : c.ctes = []) (hsubs : c.root.subqueries = []) :
    ∀ x ∈ ofCanvas c, x ≠ .opening ∧ x ≠ .closing := by
  have hcomposes : Composes .compact .compact
      fun g _ _ => ∀ x ∈ g, x ≠ Glyph.opening ∧ x ≠ .closing :=
    { text := fun s x hx => by
        obtain ⟨c, -, rfl⟩ := List.mem_map.1 hx
        simp
      append := fun h h' x hx => (List.mem_append.1 hx).elim (h x) (h' x)
      clauseGap := by simp
      innerGap := by simp
      cteGap := by simp [text] }
  refine hcomposes.ofCanvas (by simp [hctes]) ?_
  obtain ⟨ctes, ⟨t, j, f, g, h, o, n, a, subs⟩⟩ := c
  obtain rfl : subs = [] := hsubs
  exact hcomposes.block .nil _

end Script

end QueryCanvas.Sql
