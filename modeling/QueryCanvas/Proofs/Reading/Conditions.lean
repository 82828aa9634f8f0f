import QueryCanvas.Proofs.Reading.Goes
import QueryCanvas.Proofs.Sql.TiedConditions

/-!
# The meaning of conditions

A canvas holds conditions as a list, each with the connector to the next one.  Nothing of their
meaning is lost by this: the list has the conditions and the connectors of the query in their order,
and the chain that is written for it is read as the tree from which it was taken, so both are true
in the same cases.  In a join, where `OR` cannot be drawn, exactly the conditions with an `OR` in
them are refused for it.
-/

set_option autoImplicit false

namespace QueryCanvas.Sql

open Lexer (keepsBackslashes)

/-! ## Steps of reading that fail -/

/-- From the counter `n` and the draft `d` on, the step fails with the fault. -/
def Fails {α : Type} (m : Drafting α) (n : Nat) (d : Draft) (fault : ReadFault) : Prop :=
  ((m.run d).run n).1 = .error fault

namespace Fails

variable {α β γ : Type} {n : Nat} {d : Draft} {fault : ReadFault}

@[simp] theorem bind_iff {m : Drafting α} {f : α → Drafting β} :
    Fails (m >>= f) n d fault ↔
      Fails m n d fault ∨ ∃ a n₁ d₁, Goes m n d a n₁ d₁ ∧ Fails (f a) n₁ d₁ fault := by
  have hstep : (m >>= f).run d = m.run d >>= fun p => (f p.1).run p.2 := rfl
  unfold Fails Goes Gives
  rw [hstep, Reads.run_bind]
  rcases (m.run d).run n with ⟨_ | ⟨a, d₁⟩, n₁⟩
  · refine ⟨fun h => .inl (by simpa using h), ?_⟩
    rintro (h | ⟨_, _, _, ⟨⟩, -⟩)
    simpa using h
  · refine ⟨fun h => .inr ⟨a, n₁, d₁, rfl, h⟩, ?_⟩
    rintro (h | ⟨_, _, _, ⟨⟩, h⟩)
    · cases h
    · exact h

@[simp] theorem refuse_iff {construct : String} :
    Fails (refuse construct : Drafting α) n d fault ↔ .unsupported construct = fault :=
  Except.error.injEq .. ▸ Iff.rfl

@[simp] theorem guard_iff {c : Prop} [Decidable c] {construct : String} {k : Unit → Drafting α} :
    Fails (if c then refuse construct >>= k else k ()) n d fault ↔
      (c ∧ .unsupported construct = fault) ∨ (¬c ∧ Fails (k ()) n d fault) := by
  by_cases hc : c <;> simp [hc]

@[simp] theorem not_get : ¬Fails MonadState.get n d fault := nofun

@[simp] theorem not_mint : ¬Fails Drafting.mint n d fault := nofun

@[simp] theorem not_edit {f : Block → Block} : ¬Fails (Drafting.edit f) n d fault := nofun

@[simp] theorem ask_iff {f : Draft → Except ReadFault α} :
    Fails (Drafting.ask f) n d fault ↔ f d = .error fault := by
  unfold Drafting.ask
  rw [bind_iff, or_iff_right not_get]
  constructor
  · rintro ⟨d₀, n₁, d₁, hget, hf⟩
    obtain ⟨rfl, rfl, rfl⟩ := Goes.get_iff.1 hget
    split at hf
    · cases hf
    · rename_i herror
      cases hf
      exact herror
  · intro herror
    refine ⟨d, n, d, Goes.get_iff.2 ⟨rfl, rfl, rfl⟩, ?_⟩
    rw [herror]
    rfl

/-- A step for each member of a list does not fail so if none of these steps does. -/
theorem not_forM {step : γ → Drafting Unit} (h : ∀ c n d, ¬Fails (step c) n d fault)
    (l : List γ) (n : Nat) (d : Draft) : ¬Fails (l.forM step) n d fault := by
  induction l generalizing n d with
  | nil => exact nofun
  | cons c l ih =>
    have hstep : (c :: l).forM step = step c >>= fun _ => l.forM step := rfl
    rw [hstep, bind_iff]
    rintro (hc | ⟨_, n₁, d₁, -, hl⟩)
    · exact h c n d hc
    · exact ih n₁ d₁ hl

end Fails

/-! ## Conditions of joins -/

/-- What is said of the condition of a join with an `OR` in it. -/
def orInJoin : ReadFault := .unsupported "OR in join condition"

theorem joinSide_ne_orInJoin (e : Expr) (d : Draft) : joinSide e d ≠ .error orInJoin := by
  unfold joinSide orInJoin
  split
  · split
    · nofun
    · rename_i qualifier _ _ _
      intro h
      have hfirst := congrArg (fun s : String => s.toList.head?)
        (ReadFault.unsupported.inj (Except.error.inj h))
      simp at hfirst
  · simp

/-- An equality in a join fails for another reason, if it does. -/
theorem readEquality_not_orInJoin (joined : EntityId) (kind : JoinKind) (e : Expr) (n : Nat)
    (d : Draft) : ¬Fails (readEquality joined kind e) n d orInJoin := by
  unfold readEquality
  split
  · simp [joinSide_ne_orInJoin]
    simp [orInJoin]
  · simp [orInJoin]

variable {α : Type} {t : ConditionTree α} {expr : α → Expr}

/-- The condition of a join is refused for `OR` exactly if there is one in it. -/
theorem readConstraint_orInJoin_iff (hsingle : ∀ a ∈ t.leaves, (expr a).isSingle)
    (joined : EntityId) (kind : JoinKind) (n : Nat) (d : Draft) :
    Fails (readConstraint joined kind (.on (t.toExpr expr))) n d orInJoin ↔ .or ∈ t.ties := by
  have hany : ((t.toExpr expr).conditions .and).any (·.2 = .or) = true ↔ .or ∈ t.ties := by
    have hmem : .or ∈ t.ties ↔ .or ∈ (t.row .and).map Prod.snd := by
      simp [ConditionTree.map_snd_row]
    rw [ConditionTree.conditions_toExpr hsingle, hmem]
    simp
  have hothers (l : List (Expr × Connector)) :
      ¬Fails (l.forM fun c => readEquality joined kind c.1) n d orInJoin :=
    Fails.not_forM (fun c => readEquality_not_orInJoin joined kind c.1) l n d
  rw [readConstraint, readJoinCondition, Fails.guard_iff, hany]
  refine ⟨?_, fun hor => .inl ⟨hor, rfl⟩⟩
  rintro (⟨hor, -⟩ | ⟨-, hfails⟩)
  · exact hor
  · exact absurd hfails (hothers _)

/-- The conditions of the `WHERE` clause are read one after the other. -/
theorem readFilters_toExpr (s : Scope) (last : Connector) :
    readFilters s last (t.toExpr expr) =
      ((t.row last).map fun c => (expr c.1, c.2)).forM fun c => readFilters s c.2 c.1 := by
  rw [List.forM_eq_forM]
  induction t generalizing last with
  | leaf a => simp [ConditionTree.toExpr]
  | node left tie right hleft hright =>
    rw [ConditionTree.row_node, List.map_append, List.forM_append, ← hleft, ← hright]
    cases tie <;> rw [ConditionTree.toExpr, Connector.operator, readFilters]

/-! ## Conditions and their chain -/

/-- **The list of conditions keeps their meaning.**  Whatever the tree of conditions is, its list
has the conditions from left to right, each with the connector between it and the next one, and the
last one with `AND`; the `WHERE` clause is read along this list, and the condition of a join is
refused for `OR` exactly if there is one in it.  Each list of conditions is, but for its last
connector, the list of exactly one tree that is grouped by precedence.  If the text of each
condition stands for it, the chain that is written for the list is read as this very tree, in every
layout and dialect, so it is true in the same cases. -/
theorem conditions_keepMeaning (expr : α → Expr) :
    (∀ t : ConditionTree α, (∀ a ∈ t.leaves, (expr a).isSingle) →
      t.leaves.length = t.ties.length + 1 ∧
      (t.toExpr expr).conditions .and = (t.leaves.map expr).zip (t.ties ++ [.and]) ∧
      (∀ s, readFilters s .and (t.toExpr expr) =
        ((t.leaves.map expr).zip (t.ties ++ [.and])).forM fun c => readFilters s c.2 c.1) ∧
      ∀ joined kind n d, Fails (readConstraint joined kind (.on (t.toExpr expr))) n d
        (.unsupported "OR in join condition") ↔ .or ∈ t.ties) ∧
    ∀ l : List (α × Connector), l ≠ [] → (∀ c ∈ l, (expr c.1).isSingle) →
      ∃ t : ConditionTree α,
        (∀ t' : ConditionTree α, (t'.Grouped ∧ t'.leaves = l.map Prod.fst ∧
          t'.ties = (l.map Prod.snd).dropLast) ↔ t' = t) ∧
        (t.toExpr expr).conditions .and =
          (l.modifyLast fun c => (c.1, .and)).map (fun c => (expr c.1, c.2)) ∧
        ∀ (d : Dialect) (text : α → String) (tokens : α → List Token) (levels : Nat),
          (∀ c ∈ l, StandsFor d levels (text c.1) (tokens c.1) (expr c.1)) →
          ∀ (layout : Layout) (last : Connector), ∀ n ≥ levels + 2, ∃ ts e,
            tokenize? d (Parameter.mask (chain layout
              ((l.modifyLast fun c => (c.1, last)).map fun c => (text c.1, c.2)))) = some ts ∧
            (inside d (n + 1) false).expr ts = .ok (e, []) ∧ e = t.toExpr expr ∧
            ∀ v : Expr → Bool, e.truth v = t.truth fun a => v (expr a) := by
  constructor
  · intro t hsingle
    rw [← t.map_row expr]
    exact ⟨t.length_leaves, ConditionTree.conditions_toExpr hsingle .and,
      fun s => readFilters_toExpr s .and, readConstraint_orInJoin_iff hsingle⟩
  · intro l hne hsingle
    obtain ⟨t, ⟨hgrouped, hleaves, hties⟩, honly⟩ := ConditionTree.existsUnique_grouped hne
    obtain ⟨own, hrow⟩ := (ConditionTree.row_eq_iff hne).1 ⟨hleaves, hties⟩
    have hflat (last : Connector) : (l.modifyLast fun c => (c.1, last)) = t.row last := by
      rw [t.row_eq_modifyLast last own, hrow]
    have hmem (P : α → Prop) (h : ∀ c ∈ l, P c.1) : ∀ a ∈ t.leaves, P a := by
      rw [hleaves]
      exact List.forall_mem_map.2 h
    have hleaf := hmem (fun a => (expr a).isSingle) hsingle
    refine ⟨t, fun t' => ⟨honly t', ?_⟩, ?_, fun d text tokens levels htext layout last n hn => ?_⟩
    · rintro rfl
      exact ⟨hgrouped, hleaves, hties⟩
    · rw [hflat, ConditionTree.conditions_toExpr hleaf]
    · have hstands := hmem (fun a => StandsFor d levels (text a) (tokens a) (expr a)) htext
      refine ⟨t.toTokens tokens, t.toExpr expr, ?_, expr_tree hstands hgrouped hn, rfl,
        ConditionTree.truth_toExpr hleaf⟩
      rw [hflat, ← chainTokens_row tokens last]
      refine Lexer.CutInto.tokenize? ?_
      rw [toList_mask]
      refine cutInto_chain layout fun c hc => hstands c.1 ?_
      rw [← ConditionTree.map_fst_row t last]
      exact List.mem_map_of_mem hc

/-- The conditions `t.a = 1 AND t.a != 'it''s' OR t.a >= \x7b\x7b low \x7d\x7d AND t.a < 9`. -/
def mixedConditions : List ((Comparison × String) × Connector) :=
  [((.eq, "1"), .and), ((.ne, "it's"), .or), ((.ge, "\x7b\x7b low \x7d\x7d"), .and),
    ((.lt, "9"), .and)]

/-- MySQL reads the two conditions behind the `OR` as one, though each has a line of its own.  So
they are no condition of a join. -/
theorem conditions_keepMeaning_mixed :
    let expr (c : Comparison × String) : Expr := conditionExpr c.1 (Literal.ofValue c.2)
    let text (c : Comparison × String) : String := comparisonText c.1 c.2
    ∃ ts e,
      tokenize? .mysql (Parameter.mask
        (chain default (mixedConditions.map fun c => (text c.1, c.2)))) = some ts ∧
      (inside .mysql 5 false).expr ts = .ok (e, []) ∧
      e.conditions .and = mixedConditions.map (fun c => (expr c.1, c.2)) ∧
      (∀ v : Expr → Bool, e.truth v =
        (v (expr (.eq, "1")) && v (expr (.ne, "it's")) ||
          v (expr (.ge, "\x7b\x7b low \x7d\x7d")) && v (expr (.lt, "9")))) ∧
      Fails (readConstraint (EntityId.minted 1) .inner (.on e)) 2 Draft.empty
        (.unsupported "OR in join condition") := by
  intro expr text
  have hkept : ∀ c ∈ mixedConditions, keepsBackslashes c.1.2.toList = true := by decide +kernel
  have hstands : ∀ c ∈ mixedConditions, StandsFor .mysql 2 (text c.1)
      (conditionTokens c.1.1 (Literal.ofValue c.1.2)) (expr c.1) :=
    fun c hc => standsFor_comparison c.1.1 fun _ _ _ => hkept c hc
  have hlast : (mixedConditions.modifyLast fun c => (c.1, .and)) = mixedConditions := by
    decide +kernel
  obtain ⟨hflat, hchain⟩ := conditions_keepMeaning expr
  obtain ⟨t, ht, hconditions, hread⟩ := hchain mixedConditions (by decide) fun _ _ => rfl
  obtain rfl : .node (.node (.leaf (.eq, "1")) .and (.leaf (.ne, "it's"))) .or
      (.node (.leaf (.ge, "\x7b\x7b low \x7d\x7d")) .and (.leaf (.lt, "9"))) = t := by
    refine (ht _).1 ⟨⟨by decide, by decide, ⟨?_, ?_, trivial, trivial⟩, ?_⟩, rfl, rfl⟩
    · decide
    · decide
    · exact ⟨by decide, by decide, trivial, trivial⟩
  obtain ⟨-, -, -, hjoin⟩ := hflat _ fun _ _ => rfl
  obtain ⟨ts, e, hts, he, rfl, htruth⟩ := hread .mysql text
    (fun c => conditionTokens c.1 (Literal.ofValue c.2)) 2 hstands default .and 4 (by decide)
  rw [hlast] at hconditions hts
  exact ⟨ts, _, hts, he, hconditions, htruth, (hjoin _ _ _ _).2 (by decide)⟩

end QueryCanvas.Sql
