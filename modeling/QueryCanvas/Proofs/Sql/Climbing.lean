import QueryCanvas.Proofs.Sql.Parsing

/-!
# Expressions operator by operator

An expression is its first operand with the operators behind it, each of which takes what stands
before it as its left side.  Each operator with its right side takes tokens, so as many steps as
there are tokens are always enough, and the expression up to a weaker operator is the left side of
this operator.
-/

set_option autoImplicit false

namespace QueryCanvas.Sql.Inside

open Sql.Parser

/-- Operators of more than the given strength lead from an expression before some tokens to another
one before the rest of them. -/
inductive Climbs (g : Inside) (strength : Nat) :
    Expr → List Token → Expr → List Token → Prop where
  | stay (e : Expr) (ts : List Token) : Climbs g strength e ts e ts
  | step {e e' e'' : Expr} {ts ts' rest : List Token}
      (hstrong : strength < g.dialect.nextStrength ts)
      (hcontinued : g.continued e (g.dialect.nextStrength ts) ts = .ok (e', ts'))
      (hshorter : ts'.length < ts.length) (hrest : Climbs g strength e' ts' e'' rest) :
      Climbs g strength e ts e'' rest

/-- The tokens before the rest are an operand with operators of more than the given strength. -/
def ReadsTo (g : Inside) (strength : Nat) (ts : List Token) (e : Expr) (rest : List Token) : Prop :=
  ∃ first behind, g.operandFirst ts = .ok (first, behind) ∧ g.Climbs strength first behind e rest

variable {g : Inside} {strength weaker : Nat} {e e' e'' : Expr} {ts ts' rest : List Token}

namespace Climbs

theorem trans (h : g.Climbs strength e ts e' ts') (h' : g.Climbs strength e' ts' e'' rest) :
    g.Climbs strength e ts e'' rest := by
  induction h with
  | stay => exact h'
  | step hstrong hcontinued hshorter _ ih => exact .step hstrong hcontinued hshorter (ih h')

theorem of_le (hle : weaker ≤ strength) (h : g.Climbs strength e ts e' rest) :
    g.Climbs weaker e ts e' rest := by
  induction h with
  | stay => exact .stay _ _
  | step hstrong hcontinued hshorter _ ih =>
    exact .step (Nat.lt_of_le_of_lt hle hstrong) hcontinued hshorter ih

/-- With more steps than tokens the grammar gets as far as the operators lead. -/
theorem climb {n : Nat} (h : g.Climbs strength e ts e' rest)
    (hend : g.dialect.nextStrength rest ≤ strength) (hn : ts.length < n) :
    g.climb strength n e ts = .ok (e', rest) := by
  induction h generalizing n with
  | stay =>
    obtain ⟨n, rfl⟩ := Nat.exists_eq_succ_of_ne_zero (Nat.ne_zero_of_lt hn)
    simp [Inside.climb, hend]
  | step hstrong hcontinued hshorter _ ih =>
    obtain ⟨n, rfl⟩ := Nat.exists_eq_succ_of_ne_zero (Nat.ne_zero_of_lt hn)
    have hnext := ih hend (n := n) (by omega)
    simp only [Inside.climb, bind_run, ahead_run, ite_run, Nat.not_le.2 hstrong, if_false,
      hcontinued, hnext]

end Climbs

namespace ReadsTo

/-- Before a weaker operator the expression ends. -/
theorem expression (h : g.ReadsTo strength ts e rest)
    (hend : g.dialect.nextStrength rest ≤ strength) : g.expression strength ts = .ok (e, rest) := by
  obtain ⟨first, behind, hfirst, hclimbs⟩ := h
  simp [Inside.expression, hfirst, hclimbs.climb hend (Nat.lt_succ_self _)]

theorem of_le (hle : weaker ≤ strength) (h : g.ReadsTo strength ts e rest) :
    g.ReadsTo weaker ts e rest := by
  obtain ⟨first, behind, hfirst, hclimbs⟩ := h
  exact ⟨first, behind, hfirst, hclimbs.of_le hle⟩

/-- One more operator takes the whole expression as its left side. -/
theorem continued (h : g.ReadsTo strength ts e ts')
    (hstrong : strength < g.dialect.nextStrength ts')
    (hcontinued : g.continued e (g.dialect.nextStrength ts') ts' = .ok (e', rest))
    (hshorter : rest.length < ts'.length) : g.ReadsTo strength ts e' rest := by
  obtain ⟨first, behind, hfirst, hclimbs⟩ := h
  exact ⟨first, behind, hfirst, hclimbs.trans (.step hstrong hcontinued hshorter (.stay _ _))⟩

theorem of_operandFirst (h : g.operandFirst ts = .ok (e, rest)) : g.ReadsTo strength ts e rest :=
  ⟨e, rest, h, .stay _ _⟩

end ReadsTo

end QueryCanvas.Sql.Inside
