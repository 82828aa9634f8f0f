import QueryCanvas.Proofs.Canvas.Tree
import QueryCanvas.Proofs.Sql.Indentation
import QueryCanvas.Proofs.Sql.Script
import QueryCanvas.Reconcile

/-!
# The layout does not change a query

The wide layout of a query has the same meaning as the compact one if its lines can each be read
alone and no query inside it has a line break of its own.  The second condition cannot be left out:
the lines of an inner query are moved in without regard to quotes, so the further lines of a text in
quotes get blanks in front of them that become part of the text.  A text of the root block may have
any number of lines.
-/

set_option autoImplicit false

namespace QueryCanvas.Sql

variable {q : Char → Prop}

/-! ## Nested queries -/

/-- A character that is no line break. -/
def Unbroken (c : Char) : Prop := c ≠ '\n' ∧ c ≠ '\r'

instance (c : Char) : Decidable (Unbroken c) := inferInstanceAs (Decidable (_ ∧ _))

theorem unbroken_iff_all {s : String} :
    (∀ c ∈ s.toList, Unbroken c) ↔ (s.toList.all fun c => decide (Unbroken c)) = true := by
  simp

theorem Laid.return_not_mem {g : Script} {w k : List Char} (h : Laid g w k)
    (hunbroken : ∀ c ∈ k, Unbroken c) : '\r' ∉ w := by
  induction h with
  | nil => simp
  | char x _ ih =>
    have := (hunbroken x (by simp)).2
    have := ih fun c hc => hunbroken c (by simp [hc])
    simp_all [Ne.symm]
  | gap n _ ih | opening n _ ih | closing n _ ih =>
    have := ih fun c hc => hunbroken c (by simp [hc])
    simp_all [List.mem_replicate]

theorem firstBlanks_eq (n : Nat) (cs : List Char) :
    ∃ m, firstBlanks n cs = List.replicate m ' ' := by
  cases cs with
  | nil => exact ⟨0, rfl⟩
  | cons c cs =>
    by_cases hc : c = '\n'
    · exact ⟨0, by simp [firstBlanks, hc]⟩
    · exact ⟨n, by simp [firstBlanks, hc]⟩

theorem moveIn_blanks (n m : Nat) (cs : List Char) :
    moveIn n (List.replicate m ' ' ++ cs) = List.replicate m ' ' ++ moveIn n cs := by
  induction m with
  | zero => rfl
  | succ m ih => simp [List.replicate_succ, moveIn, ih]

/-- Moving the lines of the wide form in gives a wide form again. -/
theorem Laid.moveIn {g : Script} {w k : List Char} (h : Laid g w k)
    (hunbroken : ∀ c ∈ k, Unbroken c) (n : Nat) : Laid g (moveIn n w) k := by
  induction h with
  | nil => exact .nil
  | @char g w k c h ih =>
    have hc := (hunbroken c (by simp)).1
    simp only [Sql.moveIn, hc, if_false]
    exact (ih fun c hc => hunbroken c (by simp [hc])).char c
  | @gap g w k m h ih =>
    obtain ⟨m', hm'⟩ := firstBlanks_eq n (List.replicate m ' ' ++ w)
    have := (ih fun c hc => hunbroken c (by simp [hc])).gap (m' + m)
    simpa only [Sql.moveIn, if_true, hm', moveIn_blanks, ← List.append_assoc,
      ← List.replicate_add] using this
  | @opening g w k m h ih =>
    obtain ⟨m', hm'⟩ := firstBlanks_eq n (List.replicate m ' ' ++ w)
    have := (ih fun c hc => hunbroken c (by simp [hc])).opening (m' + m)
    have hne : ('(' = '\n') = False := by simp
    simpa only [Sql.moveIn, hne, if_false, if_true, hm', moveIn_blanks, ← List.append_assoc,
      ← List.replicate_add] using this
  | @closing g w k m h ih =>
    obtain ⟨m', hm'⟩ := firstBlanks_eq n (List.replicate m ' ' ++ ')' :: w)
    have := (ih fun c hc => hunbroken c (by simp [hc])).closing (m' + m)
    have hne : (')' = '\n') = False := by simp
    simpa only [Sql.moveIn, hne, if_false, if_true, hm', moveIn_blanks, ← List.append_assoc,
      ← List.replicate_add] using this

namespace Script

/-- The query ends with a character or a parenthesis, not in a place before a further line. -/
def Ended (g : Script) : Prop := ∃ x, g.getLast? = some x ∧ x ≠ .gap ∧ x ≠ .opening

/-- A part that can stand at the end of a query. -/
def Quiet (g : Script) : Prop := g = [] ∨ g.Ended

variable {g g' : Script}

theorem Ended.after (h : g'.Ended) (g : Script) : (g ++ g').Ended := by
  obtain ⟨x, hx, hne⟩ := h
  exact ⟨x, by rw [List.getLast?_append, hx]; rfl, hne⟩

theorem Ended.append (h : g.Ended) (h' : g'.Quiet) : (g ++ g').Ended := by
  rcases h' with rfl | h'
  · rwa [List.append_nil]
  · exact h'.after g

theorem Quiet.append (h : g.Quiet) (h' : g'.Quiet) : (g ++ g').Quiet := by
  rcases h with rfl | h
  · exact h'
  · exact .inr (h.append h')

theorem ended_text {s : String} (h : s ≠ "") : (text s).Ended := by
  have hne : s.toList ≠ [] := fun heq => h (by rw [← String.toList_inj, heq]; rfl)
  refine ⟨.char (s.toList.getLast hne), ?_, by simp, by simp⟩
  rw [text, List.getLast?_map, List.getLast?_eq_some_getLast hne]
  rfl

theorem quiet_text (s : String) : (text s).Quiet := by
  by_cases h : s = ""
  · exact .inl (by rw [h]; rfl)
  · exact .inr (ended_text h)

theorem ended_nest (g : Script) : (nest g).Ended :=
  ⟨.closing, by simp [nest, List.getLast?_cons], by simp, by simp⟩

theorem quiet_flatten {gs : List Script} (h : ∀ g ∈ gs, g.Quiet) : Quiet gs.flatten := by
  induction gs with
  | nil => exact .inl rfl
  | cons g gs ih => exact (h g (by simp)).append (ih fun x hx => h x (by simp [hx]))

theorem quiet_commas {gs : List Script} (h : ∀ g ∈ gs, g.Quiet) : (commas gs).Quiet := by
  induction gs with
  | nil => exact .inl rfl
  | cons g gs ih =>
    have hrest := ih fun x hx => h x (by simp [hx])
    cases gs with
    | nil => simpa [commas, List.intercalate] using h g (by simp)
    | cons next gs =>
      rw [commas, List.intercalate_cons_cons]
      exact ((h g (by simp)).append (quiet_text _)).append hrest

theorem ended_intercalate {gs : List Script} (hne : gs ≠ []) (h : ∀ g ∈ gs, g.Ended)
    (sep : Script) : Ended (sep.intercalate gs) := by
  induction gs with
  | nil => exact absurd rfl hne
  | cons g gs ih =>
    cases gs with
    | nil => simpa [List.intercalate] using h g (by simp)
    | cons next gs =>
      rw [List.intercalate_cons_cons]
      exact (ih (by simp) fun x hx => h x (by simp [hx])).after _

theorem Quiet.aliased (h : g.Quiet) (aliasName : Option String) : (aliased g aliasName).Quiet := by
  cases aliasName with
  | none => exact h
  | some name => exact h.append (quiet_text _)

theorem quiet_fromItem (b : Block) (item : FromItem) : (fromItem b item).Quiet := by
  refine (quiet_text _).append (quiet_flatten fun g hg => ?_)
  obtain ⟨s, -, rfl⟩ := List.mem_map.1 hg
  refine .inr ((ended_text fun h => ?_).after [.gap])
  have := congrArg String.toList h
  simp [joinStep] at this

variable {ns : List (SubqueryOf Script)}

theorem quiet_nestedItems (h : ∀ s ∈ ns, s.block.Ended) (role : SubqueryRole) :
    ∀ g ∈ nestedItems ns role, g.Quiet := by
  intro g hg
  obtain ⟨s, hs, rfl⟩ := List.mem_map.1 hg
  exact Quiet.aliased (.inr (h s (List.mem_filter.1 hs).1)) _

theorem quiet_selectList (h : ∀ s ∈ ns, s.block.Ended) (b : Block) : (selectList b ns).Quiet := by
  unfold selectList
  dsimp only
  split
  · exact quiet_text _
  · refine quiet_commas fun g hg => ?_
    rcases List.mem_append.1 hg with hg | hg
    · obtain ⟨s, -, rfl⟩ := List.mem_map.1 hg
      exact quiet_text s
    · exact quiet_nestedItems h _ g hg

theorem quiet_fromClause (h : ∀ s ∈ ns, s.block.Ended) (b : Block) : (fromClause b ns).Quiet := by
  refine quiet_commas fun g hg => ?_
  rcases List.mem_append.1 hg with hg | hg
  · obtain ⟨item, -, rfl⟩ := List.mem_map.1 hg
    exact quiet_fromItem b item
  · exact quiet_nestedItems h _ g hg

theorem quiet_filterText (h : ∀ s ∈ ns, s.block.Ended) (f : Filter) : (filterText ns f).Quiet := by
  unfold filterText
  dsimp only
  split
  · rename_i s heq
    refine .inr (Ended.after (h s ?_) _)
    split at heq
    · cases heq
    · obtain ⟨id, -, hfind⟩ := Option.bind_eq_some_iff.1 heq
      exact List.mem_of_find?_eq_some hfind
  · exact quiet_text _

theorem quiet_chain {conditions : List (Script × Connector)} (h : ∀ x ∈ conditions, x.1.Quiet) :
    (chain conditions).Quiet := by
  induction conditions with
  | nil => exact .inl rfl
  | cons x rest ih =>
    have hfirst := h x (by simp)
    have hrest := ih fun y hy => h y (by simp [hy])
    cases rest with
    | nil => exact hfirst
    | cons y ys =>
      refine .inr (Ended.after (Ended.after (Ended.append (ended_text fun h => ?_) hrest) [.gap]) _)
      have := congrArg String.toList h
      simp at this

theorem ended_clause {keyword : String} {α : Type} {items : List α} {body : List α → Script}
    {g : Script} (hg : g ∈ clause keyword items body) (hbody : (body items).Quiet) : g.Ended := by
  unfold clause at hg
  split at hg
  · cases hg
  · rw [List.mem_singleton.1 hg]
    refine Ended.append (ended_text fun h => ?_) hbody
    have := congrArg String.toList h
    simp at this

theorem ended_block (h : ∀ s ∈ ns, s.block.Ended) (b : Block) : (block b ns).Ended := by
  unfold block
  split
  · exact ended_text (by decide)
  · refine ended_intercalate (by simp) (fun g hg => ?_) _
    simp only [List.mem_append] at hg
    obtain ((((hg | hg) | hg) | hg) | hg) | hg := hg
    · rcases List.mem_cons.1 hg with rfl | hg
      · exact (ended_text (by decide)).append (quiet_selectList h b)
      · rw [List.mem_singleton.1 hg]
        exact (ended_text (by decide)).append (quiet_fromClause h b)
    · refine ended_clause hg (quiet_chain fun x hx => ?_)
      obtain ⟨f, -, rfl⟩ := List.mem_map.1 hx
      exact quiet_filterText h f
    · exact ended_clause hg (quiet_text _)
    · refine ended_clause hg (quiet_chain fun x hx => ?_)
      obtain ⟨f, -, rfl⟩ := List.mem_map.1 hx
      exact quiet_text _
    · exact ended_clause hg (quiet_text _)
    · exact ended_clause hg (quiet_text _)

theorem ended_ofNested (subs : List (SubqueryOf Block)) : ∀ s ∈ ofNested subs, s.block.Ended := by
  induction subs with
  | nil => simp [ofNested]
  | cons s subs ih =>
    intro x hx
    rcases List.mem_cons.1 hx with rfl | hx
    · exact ended_nest _
    · exact ih x hx

theorem ended_ofBlock (b : Block) : (ofBlock b).Ended := by
  cases b
  exact ended_block (ended_ofNested _) _

end Script

theorem Script.Ended.cons {x : Glyph} {g : Script} (h : Ended (x :: g)) :
    (g = [] ∧ x ≠ .gap ∧ x ≠ .opening) ∨ g.Ended := by
  obtain ⟨y, hy, hne⟩ := h
  cases g with
  | nil =>
    obtain rfl : x = y := by simpa using hy
    exact .inl ⟨rfl, hne⟩
  | cons z g => exact .inr ⟨y, by simpa using hy, hne⟩

/-- The wide form of a query that ends with a character or a parenthesis ends with no line feed. -/
theorem Laid.last {g : Script} {w k : List Char} (h : Laid g w k) (hended : g.Ended)
    (hunbroken : ∀ c ∈ k, Unbroken c) : ∃ c, w.getLast? = some c ∧ c ≠ '\n' := by
  have hbehind : ∀ (before : List Char) {w : List Char} {c : Char}, w.getLast? = some c →
      (before ++ w).getLast? = some c := fun _ _ _ h => by rw [List.getLast?_append, h]; rfl
  induction h with
  | nil =>
    obtain ⟨x, hx, -⟩ := hended
    cases hx
  | @char g w k c h ih =>
    obtain ⟨rfl, -⟩ | hended := hended.cons
    · cases h
      exact ⟨c, rfl, (hunbroken c (by simp)).1⟩
    · obtain ⟨x, hx, hne⟩ := ih hended fun c hc => hunbroken c (by simp [hc])
      exact ⟨x, hbehind [c] hx, hne⟩
  | @gap g w k m h ih =>
    obtain ⟨-, hgap, -⟩ | hended := hended.cons
    · exact absurd rfl hgap
    · obtain ⟨x, hx, hne⟩ := ih hended fun c hc => hunbroken c (by simp [hc])
      exact ⟨x, hbehind ('\n' :: List.replicate m ' ') hx, hne⟩
  | @opening g w k m h ih =>
    obtain ⟨-, -, hopening⟩ | hended := hended.cons
    · exact absurd rfl hopening
    · obtain ⟨x, hx, hne⟩ := ih hended fun c hc => hunbroken c (by simp [hc])
      exact ⟨x, hbehind ('(' :: '\n' :: List.replicate m ' ') hx, hne⟩
  | @closing g w k m h ih =>
    obtain ⟨rfl, -⟩ | hended := hended.cons
    · cases h
      exact ⟨')', hbehind ('\n' :: List.replicate m ' ') rfl, by decide⟩
    · obtain ⟨x, hx, hne⟩ := ih hended fun c hc => hunbroken c (by simp [hc])
      exact ⟨x, hbehind ('\n' :: List.replicate m ' ') (hbehind [')'] hx), hne⟩

section Nested

variable (n : Nat)

/-- A nested query in its two forms. -/
theorem Laid.nest {g : Script} {w k : String} (h : Laid g w.toList k.toList) (hended : g.Ended)
    (hunbroken : ∀ c ∈ k.toList, Unbroken c) :
    Laid g.nest ((Layout.wide n).nest w).toList (Layout.compact.nest k).toList := by
  obtain ⟨c, hlast, hc⟩ := h.last hended hunbroken
  obtain ⟨m, hm⟩ := firstBlanks_eq n w.toList
  have hw : ((Layout.wide n).nest w).toList =
      '(' :: '\n' :: (List.replicate m ' ' ++ (Sql.moveIn n w.toList ++ ['\n', ')'])) := by
    simp [Layout.nest, Layout.wide, toList_indentLines (h.return_not_mem hunbroken) hlast hc, hm]
  have hk : (Layout.compact.nest k).toList = '(' :: (k.toList ++ [')']) := by
    simp [Layout.nest, Layout.compact]
  rw [hw, hk]
  exact ((h.moveIn hunbroken n).append (Laid.nil.closing 0)).opening m

theorem Fits.nest {g : Script} {w k : String} (h : Fits Unbroken g w k) (hended : g.Ended) :
    Fits Unbroken g.nest ((Layout.wide n).nest w) (Layout.compact.nest k) := by
  intro hunbroken
  have hk : ∀ c ∈ k.toList, Unbroken c := fun c hc => hunbroken c (by
    simp [Layout.nest, Layout.compact, hc])
  exact (h hk).nest n hended hk

theorem fits_emptyNested : Fits q (Script.text emptyNested).nest
    ((Layout.wide n).nest emptyNested) (Layout.compact.nest emptyNested) :=
  fun _ => (Laid.text emptyNested).nest n (Script.ended_text (by decide))
    (unbroken_iff_all.2 (by decide))

/-- A block whose query has no line breaks in it, in its two forms. -/
theorem fits_ofBlock (b : Block) :
    Fits Unbroken (Script.ofBlock b) (renderBlock (.wide n) b) (renderBlock .compact b) := by
  induction b using Block.tree_induction with
  | step b ih =>
    exact (composes_fits _ n).ofBlock (fits_emptyNested n)
      fun s hs => (ih s hs).nest n (Script.ended_ofBlock _)

end Nested

/-! ## The query of a canvas -/

/-- The blocks whose queries stand inside the query of a canvas: those of the named queries and
those directly below the root. -/
def innerBlocks (c : Canvas) : List Block :=
  c.ctes.map (·.block) ++ c.root.subqueries.map (·.block)

/-- The queries that stand inside the query of a canvas have no line breaks of their own, neither in
texts and names in quotes nor in the written clauses. -/
def KeepsLines (c : Canvas) : Prop :=
  ∀ b ∈ innerBlocks c, ∀ x ∈ (renderBlock .compact b).toList, Unbroken x

instance (c : Canvas) : Decidable (KeepsLines c) :=
  decidable_of_iff ((innerBlocks c).all fun b =>
      (renderBlock .compact b).toList.all fun x => decide (Unbroken x))
    (by simp only [KeepsLines, List.all_eq_true, unbroken_iff_all])

/-- **The two layouts of a canvas** differ only in the places between its lines. -/
theorem laid_render (n : Nat) {c : Canvas} (h : KeepsLines c) :
    Laid (Script.ofCanvas c) (render (.wide n) c).toList (render .compact c).toList := by
  have hnested : ∀ b ∈ innerBlocks c, Fits (fun _ => True) (Script.ofBlock b).nest
      ((Layout.wide n).nest (renderBlock (.wide n) b))
      (Layout.compact.nest (renderBlock .compact b)) :=
    fun b hb _ => (fits_ofBlock n b (h b hb)).nest n (Script.ended_ofBlock b) (h b hb)
  have hcomposes := composes_fits (fun _ => True) n
  refine (hcomposes.ofCanvas (fun q hq => ?_) ?_) fun _ _ => trivial
  · exact hnested _ (List.mem_append_left _ (List.mem_map_of_mem hq))
  · exact hcomposes.ofBlock (fits_emptyNested n) fun s hs =>
      hnested _ (List.mem_append_right _ (List.mem_map_of_mem hs))

end QueryCanvas.Sql

namespace QueryCanvas

open Sql

/-- **The layout does not change the query** of a canvas whose lines can each be read alone and
whose inner queries have no line breaks of their own. -/
theorem shape_wide_eq_compact (catalog : Catalog) (indent : Nat) {c : Canvas}
    (hkeeps : KeepsLines c) (hwhole : ∀ line ∈ (Script.ofCanvas c).lines, IsWhole line) :
    (Reader.mk .generic catalog).shape (render { pretty := true, indent } c)
      = (Reader.mk .generic catalog).shape (render .compact c) := by
  obtain ⟨line, rest, hlines⟩ := List.exists_cons_of_ne_nil (Script.ofCanvas c).lines_ne_nil
  rw [hlines] at hwhole
  obtain ⟨ts, hw, hk⟩ := (laid_render indent hkeeps).readsAs [] hlines
    (hwhole _ (by simp)) fun l hl => hwhole l (by simp [hl])
  have htokens : ∀ {s : String}, ReadsAs s.toList ts →
      tokenize? .generic (Parameter.mask s) = ts := fun {s} h => by
    refine Lexer.CutInto.tokenize? ?_
    rw [toList_mask]
    exact h
  have hquery : Query.parse .generic (render (.wide indent) c)
      = Query.parse .generic (render .compact c) := by
    rw [Query.parse, Query.parse, statements?, statements?, htokens hw, htokens hk]
  simp only [Reader.shape, Reader.canvas, readText, readQuery]
  rw [show render { pretty := true, indent } c = render (.wide indent) c from rfl, hquery]

/-! ## A named query that compares with a text -/

/-- A table of one chosen column `x` with a comparison of this column with a text. -/
def comparing (name value : String) (cte : Option EntityId) : Block :=
  { Block.empty with
    tables := [{
      id := EntityId.minted 0, name, position := default, columns := ["x"], selected := ["x"]
      aggregates := .empty, cte }]
    filters := [{
      id := EntityId.minted 1, column := columnRef name "x", operator := .eq
      operand := .value value, connector := .and }] }

/-- A named query that compares with a text, and a root that reads from it. -/
def comparingNamed (value : String) : Canvas :=
  { ctes := [{
      id := EntityId.minted 2, name := "w", frame := default, block := comparing "t" value none }]
    root := comparing "w" "two\nlines" (some (EntityId.minted 2)) }

/-- A text of two lines in the root block does no harm. -/
theorem shape_wide_eq_compact_comparing :
    KeepsLines (comparingNamed "a") ∧
      (∀ line ∈ (Script.ofCanvas (comparingNamed "a")).lines, IsWhole line) ∧
      (Reader.mk .generic .empty).shape
          (render { pretty := true, indent := 2 } (comparingNamed "a"))
        = (Reader.mk .generic .empty).shape (render .compact (comparingNamed "a")) := by
  have hkeeps : KeepsLines (comparingNamed "a") := by decide +kernel
  have hwhole : ∀ line ∈ (Script.ofCanvas (comparingNamed "a")).lines, IsWhole line := by
    decide +kernel
  exact ⟨hkeeps, hwhole, shape_wide_eq_compact .empty 2 hkeeps hwhole⟩

/-- The texts that the conditions in the named queries of a shape compare with. -/
def CanvasShape.comparedInNamed (s : CanvasShape) : List (List String) :=
  s.ctes.map fun q => q.2.filters.map (·.value)

/-- What a text is read as, numbering from zero. -/
def shapeOf (text : String) : Except ReadFault CanvasShape :=
  (((Reader.mk .generic .empty).shape text).run 0).1

/-- A text of two lines in a named query is another text in the wide layout. -/
theorem text_moved_in : ∃ s s',
    shapeOf (render { pretty := true, indent := 2 } (comparingNamed "a\nb")) = .ok s ∧
    shapeOf (render .compact (comparingNamed "a\nb")) = .ok s' ∧
    s.comparedInNamed = [["a\n  b"]] ∧ s'.comparedInNamed = [["a\nb"]] := by
  have hread : ∀ {text : String} {values : List (List String)},
      (shapeOf text).toOption.map CanvasShape.comparedInNamed = some values →
        ∃ s, shapeOf text = .ok s ∧ s.comparedInNamed = values := by
    intro text values h
    cases hs : shapeOf text with
    | error e => rw [hs] at h; cases h
    | ok s => rw [hs] at h; exact ⟨s, rfl, Option.some.inj h⟩
  have hwide : (shapeOf (render { pretty := true, indent := 2 }
      (comparingNamed "a\nb"))).toOption.map CanvasShape.comparedInNamed = some [["a\n  b"]] := by
    decide +kernel
  have hcompact : (shapeOf (render .compact
      (comparingNamed "a\nb"))).toOption.map CanvasShape.comparedInNamed = some [["a\nb"]] := by
    decide +kernel
  obtain ⟨s, hs, hvalues⟩ := hread hwide
  obtain ⟨s', hs', hvalues'⟩ := hread hcompact
  exact ⟨s, s', hs, hs', hvalues, hvalues'⟩

end QueryCanvas
