import QueryCanvas.Proofs.Sql.ConditionTrees
import QueryCanvas.Proofs.Sql.WrittenValues

/-!
# Chains of conditions

A chain of conditions is cut into the tokens of the conditions and the connectors between them, in
every layout, and these tokens are read as the tree that the precedence of the connectors demands.
For this each condition has to be one that is read as such wherever a connector or nothing follows.
-/

set_option autoImplicit false

namespace QueryCanvas.Sql

open Sql.Parser Lexer Inside

variable {α : Type} {d : Dialect}

/-- The token of a connector. -/
abbrev Token.tie (c : Connector) : Token := .bare c.sql

/-! ## The strength of connectors -/

/-- How tightly a connector binds in a dialect. -/
def Dialect.tieStrength (d : Dialect) : Connector → Nat
  | .and => d.strength .and
  | .or => d.strength .or

theorem folded_tie (c : Connector) : (Name.bare c.sql).folded = c.sql := by
  cases c <;> decide +kernel

theorem nextStrength_tie (d : Dialect) (c : Connector) (rest : List Token) :
    d.nextStrength (.tie c :: rest) = d.tieStrength c := by
  have hfolded := folded_tie c
  cases c <;> simp_all [Dialect.nextStrength, Connector.sql, OperatorClass.ofWord?] <;> rfl

theorem tieStrength_pos (d : Dialect) (c : Connector) : 0 < d.tieStrength c := by
  cases d <;> cases c <;> decide

theorem tieStrength_le_and (d : Dialect) (c : Connector) : d.tieStrength c ≤ d.strength .and := by
  cases d <;> cases c <;> decide

/-- In every dialect the looser connector binds less strongly. -/
theorem tieStrength_lt {c c' : Connector} (h : c'.looseness < c.looseness) :
    d.tieStrength c < d.tieStrength c' := by
  cases c <;> cases c' <;> first | cases d <;> decide | simp [Connector.looseness] at h

theorem tieStrength_le {c c' : Connector} (h : c'.looseness ≤ c.looseness) :
    d.tieStrength c ≤ d.tieStrength c' := by
  rcases Nat.lt_or_eq_of_le h with hlt | heq
  · exact Nat.le_of_lt (tieStrength_lt hlt)
  · obtain rfl : c' = c := by cases c <;> cases c' <;> first | rfl | cases heq
    exact Nat.le_refl _

/-! ## Conditions among others -/

/-- The tokens are at their end, or a connector comes next. -/
def AtTie (rest : List Token) : Prop := rest = [] ∨ ∃ c rest', rest = .tie c :: rest'

theorem AtTie.endsOperand {rest : List Token} (h : AtTie rest) :
    EndsOperand d (d.strength .and) rest := by
  rcases h with rfl | ⟨c, rest, rfl⟩
  · exact .nil
  · refine ⟨word?_absent ?_, by rw [nextStrength_tie]; exact tieStrength_le_and d c⟩
    rw [folded_tie]
    cases c <;> decide

/-- The text stands for the condition wherever conditions are tied together: it is cut into the
tokens whatever follows, if this begins with a blank or a parenthesis, and the tokens are read as
the condition wherever so many levels of the grammar are left. -/
structure StandsFor (d : Dialect) (levels : Nat) (text : String) (tokens : List Token)
    (e : Expr) : Prop where
  cut : ∀ r ts, Stops r → CutInto d (maskedChars r) ts →
    CutInto d (maskedChars (text.toList ++ r)) (ts.map (tokens ++ ·))
  /-- It does not begin with a word for the members of a group. -/
  single : ∀ rest, oneOf? ["ANY", "ALL", "SOME"] (tokens ++ rest) = .ok (none, tokens ++ rest)
  read : ∀ n ≥ levels, ∀ rest, AtTie rest →
    (inside d n false).ReadsTo (d.strength .and) (tokens ++ rest) e rest

/-- A comparison of the column `t.a` with a value. -/
def comparisonText (c : Comparison) (v : String) : String :=
  "t.a " ++ c.sql ++ " " ++ formatValue v

/-- The text of a comparison stands for it, unless the dialect gives the backslashes of the value a
meaning. -/
theorem standsFor_comparison (c : Comparison) {v : String} (h : KeepsValue d v) :
    StandsFor d 2 (comparisonText c v) (conditionTokens c (Literal.ofValue v))
      (conditionExpr c (Literal.ofValue v)) where
  cut r ts hr hrest := by
    have hcalm : ("t.a " ++ c.sql ++ " ").toList.all Parameter.opensNothing = true := by
      cases c <;> decide
    have hvalue := (shows_formatValue v).toComplete
    have hmasked : maskedChars ((comparisonText c v).toList ++ r) = ("t.a " ++ c.sql ++ " ").toList
        ++ (maskedChars (formatValue v).toList ++ maskedChars r) := by
      rw [comparisonText, String.toList_append, List.append_assoc, maskedChars_calm hcalm,
        maskedChars_append hvalue.ends_in_code hvalue.closed hr]
    have hcut := (hrest.writtenValue (stops_maskedChars hr) h).comparison c
    rw [hmasked]
    simpa [Option.map_map, Function.comp_def] using hcut
  single rest := oneOf?_absent (by rw [Name.folded_t]; decide)
  read n hn rest hrest := by
    obtain ⟨n, rfl⟩ := Nat.exists_eq_add_of_le' hn
    exact readsTo_condition n false c _ (by cases d <;> decide)
      (hrest.endsOperand.of_le (by cases d <;> decide))

/-! ## The tokens of a chain -/

/-- The tokens of conditions with the connectors between them. -/
def chainTokens (tokens : α → List Token) : List (α × Connector) → List Token
  | [] => []
  | [(a, _)] => tokens a
  | (a, c) :: rest => tokens a ++ .tie c :: chainTokens tokens rest

theorem cutInto_lineEnd {cs : List Char} {ts : Option (List Token)} (h : CutInto d cs ts) :
    CutInto d ('\n' :: cs) ts := by
  have hstep : step? d ('\n' :: cs) = some (none, cs) := by
    rw [step?_unprefixed (prefixed?_none (by decide) cs)]
    cases d <;> rfl
  simpa using h.step hstep (by simp)

theorem cutInto_blanks {cs : List Char} {ts : Option (List Token)} (h : CutInto d cs ts) (n : Nat) :
    CutInto d (List.replicate n ' ' ++ cs) ts := by
  induction n with
  | zero => exact h
  | succ n ih => exact ih.space

theorem cutInto_innerBreak {cs : List Char} {ts : Option (List Token)} (l : Layout)
    (h : CutInto d cs ts) : CutInto d (l.innerBreak.toList ++ cs) ts := by
  cases hpretty : l.pretty with
  | false => simpa [Layout.innerBreak, hpretty] using h.space
  | true =>
    simpa [Layout.innerBreak, hpretty, Layout.pad] using cutInto_lineEnd (cutInto_blanks h l.indent)

theorem stops_innerBreak (l : Layout) (cs : List Char) : Stops (l.innerBreak.toList ++ cs) := by
  cases hpretty : l.pretty <;> simp [Layout.innerBreak, hpretty, stops_cons, isStop]

theorem calm_innerBreak (l : Layout) : l.innerBreak.toList.all Parameter.opensNothing = true := by
  have hspace : Parameter.opensNothing ' ' = true := by decide
  have hlineEnd : Parameter.opensNothing '\n' = true := by decide
  cases hpretty : l.pretty <;>
    simp [Layout.innerBreak, hpretty, Layout.pad, hspace, hlineEnd]

/-- What stands between two conditions is cut into the connector. -/
theorem cutInto_tie {cs : List Char} {ts : Option (List Token)} (l : Layout) (c : Connector)
    (h : CutInto d (maskedChars cs) ts) :
    CutInto d (maskedChars (l.innerBreak.toList ++ (c.sql.toList ++ ' ' :: cs)))
      (ts.map (.tie c :: ·)) := by
  have hword : (c.sql.toList ++ [' ']).all Parameter.opensNothing = true := by
    cases c <;> decide
  have hsplit : c.sql.toList ++ ' ' :: cs = c.sql.toList ++ [' '] ++ cs := by simp
  rw [maskedChars_calm (calm_innerBreak l), hsplit, maskedChars_calm hword, List.append_assoc]
  refine cutInto_innerBreak l (h.word (by cases c <;> decide) fun r => ?_)
  cases c <;> cases d <;> rfl

variable {levels : Nat} {text : α → String} {tokens : α → List Token} {expr : α → Expr}

/-- A chain of conditions is cut into their tokens and the connectors between them. -/
theorem cutInto_chain (l : Layout) {conditions : List (α × Connector)}
    (h : ∀ c ∈ conditions, StandsFor d levels (text c.1) (tokens c.1) (expr c.1)) :
    CutInto d (maskedChars (chain l (conditions.map fun c => (text c.1, c.2))).toList)
      (some (chainTokens tokens conditions)) := by
  induction conditions with
  | nil => exact maskedChars_nil ▸ cutInto_nil
  | cons c rest ih =>
    obtain ⟨hc, hrest⟩ := List.forall_mem_cons.1 h
    cases rest with
    | nil =>
      have hcut := hc.cut [] _ stops_nil (maskedChars_nil ▸ cutInto_nil)
      simpa [chain, chainTokens] using hcut
    | cons c' rest =>
      have hcut := hc.cut _ _ (stops_innerBreak l _) (cutInto_tie l c.2 (ih hrest))
      simpa [chain, chainTokens, List.append_assoc] using hcut

/-! ## The tree of a chain -/

/-- The tokens of a tree. -/
def ConditionTree.toTokens (f : α → List Token) : ConditionTree α → List Token
  | leaf a => f a
  | node left tie right => left.toTokens f ++ .tie tie :: right.toTokens f

variable {t : ConditionTree α}

theorem chainTokens_append (f : α → List Token) (tie : Connector) {others : List (α × Connector)}
    (h : others ≠ []) :
    chainTokens f (t.row tie ++ others) = t.toTokens f ++ .tie tie :: chainTokens f others := by
  induction t generalizing tie others with
  | leaf a =>
    cases others with
    | nil => exact absurd rfl h
    | cons c others => rfl
  | node left c right hleft hright =>
    have hne : right.row tie ++ others ≠ [] := List.append_ne_nil_of_right_ne_nil _ h
    rw [ConditionTree.row_node, List.append_assoc, hleft c hne, hright tie h]
    simp [ConditionTree.toTokens]

/-- The chain of a tree has the tokens of the tree. -/
theorem chainTokens_row (f : α → List Token) (last : Connector) :
    chainTokens f (t.row last) = t.toTokens f := by
  induction t generalizing last with
  | leaf a => rfl
  | node left tie right _ hright =>
    rw [ConditionTree.row_node, chainTokens_append f tie ConditionTree.row_ne_nil, hright last,
      ConditionTree.toTokens]

theorem oneOf?_tree (h : ∀ a ∈ t.leaves, StandsFor d levels (text a) (tokens a) (expr a))
    (rest : List Token) : oneOf? ["ANY", "ALL", "SOME"] (t.toTokens tokens ++ rest)
      = .ok (none, t.toTokens tokens ++ rest) := by
  induction t generalizing rest with
  | leaf a => exact (h a (List.mem_singleton_self a)).single rest
  | node left tie right hleft _ =>
    rw [ConditionTree.toTokens, List.append_assoc]
    exact hleft (fun a ha => h a (List.mem_append_left _ ha)) _

/-- Behind a connector stands its right side. -/
theorem continued_tie {g : Inside} {strength : Nat} {left right : Expr} {rest ts : List Token}
    (c : Connector) (hgroup : oneOf? ["ANY", "ALL", "SOME"] ts = .ok (none, ts))
    (h : g.operand strength ts = .ok (right, rest)) :
    g.continued left strength (.tie c :: ts) = .ok (.binary left c.operator right, rest) := by
  have hfolded := folded_tie c
  cases c <;>
    simp_all [continued, seesOneOf, wordedOperator, rightSide, Connector.sql, Connector.operator]

/-- **The tokens of a grouped tree are read as this tree.**  A connector takes one level of the
grammar more than those on its right. -/
theorem readsTo_tree (h : ∀ a ∈ t.leaves, StandsFor d levels (text a) (tokens a) (expr a))
    (hgrouped : t.Grouped) {n : Nat} (hn : levels + t.looseness ≤ n) {strength : Nat}
    (hand : strength ≤ d.strength .and)
    (hstrong : ∀ c : Connector, c.looseness ≤ t.looseness → strength < d.tieStrength c)
    {rest : List Token} (hrest : AtTie rest)
    (hweak : ∀ c : Connector, c.looseness ≤ t.looseness → d.nextStrength rest ≤ d.tieStrength c) :
    (inside d n false).ReadsTo strength (t.toTokens tokens ++ rest) (t.toExpr expr) rest := by
  induction t generalizing n strength rest with
  | leaf a => exact ((h a (List.mem_singleton_self a)).read n hn rest hrest).of_le hand
  | node left tie right hleft hright =>
    obtain ⟨hle, hlt, hleftGrouped, hrightGrouped⟩ := hgrouped
    have hleftLeaves := fun a ha => h a (List.mem_append_left _ ha)
    have hrightLeaves := fun a ha => h a (List.mem_append_right _ ha)
    obtain ⟨n, rfl⟩ : ∃ m, n = m + 1 :=
      Nat.exists_eq_succ_of_ne_zero (by
        have := tie.looseness_pos
        simp only [ConditionTree.looseness] at hn
        omega)
    have hnext : (inside d (n + 1) false).dialect.nextStrength
        (.tie tie :: (right.toTokens tokens ++ rest)) = d.tieStrength tie := by
      rw [dialect_inside, nextStrength_tie]
    -- what stands on the left ends at the connector
    have hbefore : (inside d (n + 1) false).ReadsTo strength
        (left.toTokens tokens ++ .tie tie :: (right.toTokens tokens ++ rest)) (left.toExpr expr)
        (.tie tie :: (right.toTokens tokens ++ rest)) := by
      refine hleft hleftLeaves hleftGrouped ?_ hand (fun c hc => hstrong c (Nat.le_trans hc hle))
        (.inr ⟨tie, _, rfl⟩) fun c hc => ?_
      · exact Nat.le_trans (Nat.add_le_add_left hle _) hn
      · rw [nextStrength_tie]
        exact tieStrength_le (Nat.le_trans hc hle)
    -- what stands on the right takes everything that is tied more tightly
    have hbehind : (inside d (n + 1) false).operand (d.tieStrength tie)
        (right.toTokens tokens ++ rest) = .ok (right.toExpr expr, rest) := by
      have hread : (inside d n false).ReadsTo (d.tieStrength tie) (right.toTokens tokens ++ rest)
          (right.toExpr expr) rest := by
        refine hright hrightLeaves hrightGrouped ?_ (tieStrength_le_and d tie)
          (fun c hc => tieStrength_lt (Nat.lt_of_le_of_lt hc hlt)) hrest
          fun c hc => hweak c (Nat.le_of_lt (Nat.lt_of_le_of_lt hc hlt))
        simp only [ConditionTree.looseness] at hn
        omega
      refine hread.expression ?_
      rw [dialect_inside]
      exact hweak tie (Nat.le_refl _)
    rw [ConditionTree.toTokens, List.append_assoc]
    refine hbefore.continued ?_ ?_ ?_
    · rw [hnext]
      exact hstrong tie (Nat.le_refl _)
    · rw [hnext]
      exact continued_tie tie (oneOf?_tree hrightLeaves rest) hbehind
    · simp only [List.length_append, List.length_cons]
      omega

/-- A grouped tree is read as an expression of its own. -/
theorem expr_tree (h : ∀ a ∈ t.leaves, StandsFor d levels (text a) (tokens a) (expr a))
    (hgrouped : t.Grouped) {n : Nat} (hn : levels + 2 ≤ n) :
    (inside d (n + 1) false).expr (t.toTokens tokens) = .ok (t.toExpr expr, []) := by
  have hloose : t.looseness ≤ 2 := by
    cases t with
    | leaf a => exact Nat.zero_le _
    | node left tie right => cases tie <;> simp [ConditionTree.looseness, Connector.looseness]
  have hread := readsTo_tree h hgrouped (n := n) (by omega) (Nat.zero_le _)
    (fun c _ => tieStrength_pos d c) (.inl rfl) fun c _ => by
      rw [nextStrength_nil]
      exact Nat.zero_le _
  rw [List.append_nil] at hread
  exact hread.expression (Nat.le_refl 0)

end QueryCanvas.Sql
