import Mathlib.Data.List.Basic
import Mathlib.Data.List.Induction
import Mathlib.Data.List.ModifyLast
import QueryCanvas.Sql.Reference

/-!
# Trees of conditions

Conditions are tied together by `AND` and `OR`, as a tree in a parsed query and as a list on a
canvas, where each condition carries the connector to the next one.  The list of a tree has its
conditions from left to right, and each connector at the place where it stands between two of them.
Of all trees with the same list, exactly one is grouped as the precedence of the connectors demands.
-/

set_option autoImplicit false

namespace QueryCanvas

namespace Connector

/-- The operator between two expressions. -/
def operator : Connector → Sql.Operator
  | and => .and
  | or => .or

/-- How loosely the connector ties: `OR` more loosely than `AND`. -/
def looseness : Connector → Nat
  | and => 1
  | or => 2

theorem looseness_pos (c : Connector) : 0 < c.looseness := by cases c <;> decide

end Connector

namespace Sql

/-! ## Trees -/

/-- A tree of conditions. -/
inductive ConditionTree (α : Type) where
  | leaf (condition : α)
  | node (left : ConditionTree α) (tie : Connector) (right : ConditionTree α)

namespace ConditionTree

variable {α : Type}

/-- The conditions from left to right. -/
def leaves : ConditionTree α → List α
  | leaf a => [a]
  | node left _ right => left.leaves ++ right.leaves

/-- The connectors from left to right. -/
def ties : ConditionTree α → List Connector
  | leaf _ => []
  | node left tie right => left.ties ++ tie :: right.ties

/-- The tree as an expression. -/
def toExpr (f : α → Expr) : ConditionTree α → Expr
  | leaf a => f a
  | node left tie right => .binary (left.toExpr f) tie.operator (right.toExpr f)

/-- The truth of the tree, given the truth of the conditions. -/
def truth (v : α → Bool) : ConditionTree α → Bool
  | leaf a => v a
  | node left .and right => left.truth v && right.truth v
  | node left .or right => left.truth v || right.truth v

/-- The conditions, each with the connector between it and the next one, and the last one with the
given connector. -/
def row (t : ConditionTree α) (last : Connector) : List (α × Connector) :=
  t.leaves.zip (t.ties ++ [last])

/-- How loosely the tree is tied at its root. -/
def looseness : ConditionTree α → Nat
  | leaf _ => 0
  | node _ tie _ => tie.looseness

/-- What a connector has on its left is tied no more loosely than by this connector, and what it has
on its right more tightly: `AND` comes before `OR`, and equal connectors group to the left. -/
def Grouped : ConditionTree α → Prop
  | leaf _ => True
  | node left tie right =>
    left.looseness ≤ tie.looseness ∧ right.looseness < tie.looseness ∧ left.Grouped ∧ right.Grouped

end ConditionTree

namespace Expr

/-- The expression is neither tied by `AND` nor by `OR`. -/
def isSingle : Expr → Bool
  | .binary _ .and _ | .binary _ .or _ => false
  | _ => true

/-- The truth of an expression, given the truth of the conditions in it. -/
def truth (v : Expr → Bool) : Expr → Bool
  | .binary left .and right => left.truth v && right.truth v
  | .binary left .or right => left.truth v || right.truth v
  | e => v e

theorem conditions_of_isSingle {e : Expr} (h : e.isSingle) (last : Connector) :
    e.conditions last = [(e, last)] := by
  unfold isSingle at h
  unfold conditions
  split <;> simp_all

theorem truth_of_isSingle {e : Expr} (h : e.isSingle) (v : Expr → Bool) : e.truth v = v e := by
  unfold isSingle at h
  unfold truth
  split <;> simp_all

end Expr

namespace ConditionTree

variable {α : Type} {t left right : ConditionTree α} {tie last : Connector} {a : α}
  {l : List (α × Connector)} {f : α → Expr}

/-! ## The list of a tree -/

theorem length_leaves (t : ConditionTree α) : t.leaves.length = t.ties.length + 1 := by
  induction t with
  | leaf a => rfl
  | node left tie right hleft hright =>
    simp only [leaves, ties, List.length_append, List.length_cons, hleft, hright]
    omega

@[simp] theorem row_leaf : (leaf a).row last = [(a, last)] := rfl

/-- The connector at the root stands behind the last condition on its left. -/
@[simp] theorem row_node : (node left tie right).row last = left.row tie ++ right.row last := by
  have hsplit : left.ties ++ tie :: right.ties ++ [last]
      = left.ties ++ [tie] ++ (right.ties ++ [last]) := by simp
  rw [row, leaves, ties, hsplit, List.zip_append (by simp [length_leaves])]
  rfl

theorem map_fst_row (t : ConditionTree α) (last : Connector) :
    (t.row last).map Prod.fst = t.leaves :=
  List.map_fst_zip (by simp [length_leaves])

theorem map_snd_row (t : ConditionTree α) (last : Connector) :
    (t.row last).map Prod.snd = t.ties ++ [last] :=
  List.map_snd_zip (by simp [length_leaves])

theorem row_ne_nil : t.row last ≠ [] := by
  intro h
  have := congrArg List.length (map_snd_row t last)
  simp [h] at this

/-- A list is the list of a tree if it has the conditions and the connectors of the tree, where the
last connector may be any. -/
theorem row_eq_iff (h : l ≠ []) :
    (t.leaves = l.map Prod.fst ∧ t.ties = (l.map Prod.snd).dropLast) ↔ ∃ last, t.row last = l := by
  constructor
  · rintro ⟨hleaves, hties⟩
    have hne : l.map Prod.snd ≠ [] := by simpa using h
    refine ⟨(l.map Prod.snd).getLast hne, ?_⟩
    rw [row, hleaves, hties, List.dropLast_append_getLast hne]
    exact (List.zip_of_prod rfl rfl).symm
  · rintro ⟨last, rfl⟩
    exact ⟨(map_fst_row t last).symm, by rw [map_snd_row, List.dropLast_concat]⟩

/-- The connector of the last condition is all in which two lists of one tree differ. -/
theorem row_eq_modifyLast (t : ConditionTree α) (tie last : Connector) :
    t.row tie = (t.row last).modifyLast fun c => (c.1, tie) := by
  induction t with
  | leaf a => rfl
  | node left c right _ hright =>
    rw [row_node, row_node, hright,
      List.modifyLast_append_of_right_ne_nil _ _ _ row_ne_nil]

theorem map_row (t : ConditionTree α) (f : α → Expr) (last : Connector) :
    ((t.row last).map fun c => (f c.1, c.2)) = (t.leaves.map f).zip (t.ties ++ [last]) := by
  rw [row, List.zip_map_left]
  rfl

/-- The conditions of an expression are the list of its tree. -/
theorem conditions_toExpr (hsingle : ∀ a ∈ t.leaves, (f a).isSingle) (last : Connector) :
    (t.toExpr f).conditions last = (t.row last).map fun c => (f c.1, c.2) := by
  induction t generalizing last with
  | leaf a => exact Expr.conditions_of_isSingle (hsingle a (List.mem_singleton_self a)) last
  | node left tie right hleft hright =>
    rw [row_node, List.map_append, ← hleft fun a ha => hsingle a (List.mem_append_left _ ha),
      ← hright fun a ha => hsingle a (List.mem_append_right _ ha)]
    cases tie <;> rfl

theorem truth_toExpr (hsingle : ∀ a ∈ t.leaves, (f a).isSingle) (v : Expr → Bool) :
    (t.toExpr f).truth v = t.truth fun a => v (f a) := by
  induction t with
  | leaf a => exact Expr.truth_of_isSingle (hsingle a (List.mem_singleton_self a)) v
  | node left tie right hleft hright =>
    have h := hleft fun a ha => hsingle a (List.mem_append_left _ ha)
    have h' := hright fun a ha => hsingle a (List.mem_append_right _ ha)
    cases tie <;> simp [toExpr, Connector.operator, Expr.truth, truth, h, h']

/-! ## The grouped tree of a list -/

/-- The tree with a further condition behind it.  `AND` ties it to what stands behind the last `OR`,
and `OR` to the whole tree. -/
def push : ConditionTree α → Connector → α → ConditionTree α
  | node left .or right, .and, a => node left .or (right.push .and a)
  | t, tie, a => node t tie (leaf a)

theorem row_push : (t.push tie a).row last = t.row tie ++ [(a, last)] := by
  induction t with
  | leaf b => cases tie <;> rfl
  | node left c right _ hright =>
    cases c <;> cases tie <;> simp_all [push]

theorem push_of_le (h : t.looseness ≤ tie.looseness) : t.push tie a = node t tie (leaf a) := by
  cases t with
  | leaf b => cases tie <;> rfl
  | node left c right =>
    cases c <;> cases tie <;> first | rfl | simp [looseness, Connector.looseness] at h

theorem Grouped.push (h : t.Grouped) (tie : Connector) (a : α) : (t.push tie a).Grouped := by
  induction t with
  | leaf b =>
    rw [push_of_le (Nat.zero_le _)]
    exact ⟨Nat.zero_le _, tie.looseness_pos, trivial, trivial⟩
  | node left c right _ hright =>
    by_cases hle : (node left c right).looseness ≤ tie.looseness
    · rw [push_of_le hle]
      exact ⟨hle, tie.looseness_pos, h, trivial⟩
    · obtain ⟨rfl, rfl⟩ : c = .or ∧ tie = .and := by
        cases c <;> cases tie <;> simp_all [looseness, Connector.looseness]
      have htight : right.looseness ≤ Connector.and.looseness := Nat.le_of_lt_succ h.2.1
      refine ⟨h.1, ?_, h.2.2.1, hright h.2.2.2⟩
      rw [push_of_le htight]
      exact Nat.lt_succ_self _

/-- Takes the next condition of a list to the tree of those before it. -/
def extend : Option (ConditionTree α × Connector) → α × Connector →
    Option (ConditionTree α × Connector)
  | none, (a, last) => some (leaf a, last)
  | some (t, tie), (a, last) => some (t.push tie a, last)

/-- The tree of a list by the precedence of the connectors, from left to right, and the last
connector. -/
def ofRow (l : List (α × Connector)) : Option (ConditionTree α × Connector) := l.foldl extend none

@[simp] theorem ofRow_concat (l : List (α × Connector)) (c : α × Connector) :
    ofRow (l ++ [c]) = extend (ofRow l) c := by
  rw [ofRow, List.foldl_append]
  rfl

theorem ofRow_ne_none (h : l ≠ []) : ofRow l ≠ none := by
  cases l using List.reverseRecOn with
  | nil => exact absurd rfl h
  | append_singleton l c =>
    rw [ofRow_concat]
    cases ofRow l <;> exact Option.some_ne_none _

/-- What a grouped tree has on the right of its root is taken up step by step. -/
theorem foldl_extend_row (hleft : left.looseness ≤ tie.looseness) (hright : right.Grouped)
    (htight : right.looseness < tie.looseness) (last : Connector) :
    (right.row last).foldl extend (some (left, tie)) = some (node left tie right, last) := by
  induction right generalizing last with
  | leaf a => simp [extend, push_of_le hleft]
  | node first c second hfirst hsecond =>
    -- only `AND` is tighter than another connector, and only a condition is tighter than `AND`
    obtain ⟨rfl, rfl⟩ : c = .and ∧ tie = .or := by
      cases c <;> cases tie <;> simp_all [looseness, Connector.looseness]
    cases second with
    | node =>
      have := hright.2.1
      rename_i tie' _
      cases tie' <;> simp [looseness, Connector.looseness] at this
    | leaf a =>
      have hle : first.looseness ≤ Connector.and.looseness := hright.1
      rw [row_node, List.foldl_append, hfirst hright.2.2.1 (Nat.lt_succ_of_le hle)]
      simp [extend, push, push_of_le hle]

/-- The tree of a list is the grouped one that has this list. -/
theorem ofRow_eq_some_iff : ofRow l = some (t, last) ↔ t.Grouped ∧ t.row last = l := by
  constructor
  · intro h
    induction l using List.reverseRecOn generalizing t last with
    | nil => cases h
    | append_singleton l c ih =>
      obtain ⟨a, last'⟩ := c
      rw [ofRow_concat] at h
      cases hprevious : ofRow l with
      | none =>
        obtain rfl : l = [] := by_contra fun hne => ofRow_ne_none hne hprevious
        cases h
        exact ⟨trivial, rfl⟩
      | some previous =>
        obtain ⟨t', tie⟩ := previous
        rw [hprevious] at h
        cases h
        obtain ⟨hgrouped, hrow⟩ := ih hprevious
        exact ⟨hgrouped.push tie a, by rw [row_push, hrow]⟩
  · rintro ⟨hgrouped, rfl⟩
    induction t generalizing last with
    | leaf a => rfl
    | node left tie right hleft _ =>
      obtain ⟨hle, hlt, hleftGrouped, hrightGrouped⟩ := hgrouped
      have hfront : (left.row tie).foldl extend none = some (left, tie) := hleft hleftGrouped
      rw [ofRow, row_node, List.foldl_append, hfront, foldl_extend_row hle hrightGrouped hlt]

/-- Precedence makes exactly one tree of a list of conditions. -/
theorem existsUnique_grouped (h : l ≠ []) :
    ∃! t : ConditionTree α,
      t.Grouped ∧ t.leaves = l.map Prod.fst ∧ t.ties = (l.map Prod.snd).dropLast := by
  obtain ⟨⟨t, last⟩, ht⟩ := Option.ne_none_iff_exists'.1 (ofRow_ne_none h)
  obtain ⟨hgrouped, hrow⟩ := ofRow_eq_some_iff.1 ht
  refine ⟨t, ⟨hgrouped, (row_eq_iff h).2 ⟨last, hrow⟩⟩, fun t' ⟨hgrouped', hparts⟩ => ?_⟩
  obtain ⟨last', hrow'⟩ := (row_eq_iff h).1 hparts
  have ht' := ofRow_eq_some_iff.2 ⟨hgrouped', hrow'⟩
  rw [ht] at ht'
  cases ht'
  rfl

end ConditionTree

end Sql

end QueryCanvas
