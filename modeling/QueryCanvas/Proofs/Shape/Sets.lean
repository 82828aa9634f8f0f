import Mathlib.Data.List.Lex
import Mathlib.Data.String.Basic
import QueryCanvas.Shape

/-!
# Lists that stand for sets

A set is written as the list of its members in the order of their keys.  Where different members
have different keys, two such lists are equal exactly if they have the same members.
-/

set_option autoImplicit false

namespace QueryCanvas

variable {α : Type} {key : α → List String}

/-- The keys of a list increase. -/
def Increasing (key : α → List String) (l : List α) : Prop :=
  l.Pairwise fun a b => key a < key b

theorem mem_insertByKey (hkey : Function.Injective key) {a x : α} {l : List α} :
    x ∈ insertByKey key a l ↔ x = a ∨ x ∈ l := by
  induction l with
  | nil => simp [insertByKey]
  | cons b rest ih =>
    rw [insertByKey]
    split
    · simp
    · split
      · rename_i heq
        rw [hkey heq]
        simp
      · rw [List.mem_cons, ih, List.mem_cons]
        exact or_left_comm

theorem increasing_insertByKey (a : α) {l : List α} (h : Increasing key l)
    (hkey : Function.Injective key) : Increasing key (insertByKey key a l) := by
  induction l with
  | nil => exact List.pairwise_singleton _ _
  | cons b rest ih =>
    obtain ⟨hfirst, hrest⟩ := List.pairwise_cons.1 h
    rw [insertByKey]
    split
    · rename_i hlt
      refine List.pairwise_cons.2 ⟨fun c hc => ?_, h⟩
      rcases List.mem_cons.1 hc with rfl | hc
      · exact hlt
      · exact lt_trans hlt (hfirst c hc)
    · rename_i hnot
      split
      · exact h
      · rename_i hne
        refine List.pairwise_cons.2 ⟨fun c hc => ?_, ih hrest⟩
        rcases (mem_insertByKey hkey).1 hc with rfl | hc
        · exact lt_of_le_of_ne (not_lt.1 hnot) (Ne.symm hne)
        · exact hfirst c hc

theorem mem_setByKey (hkey : Function.Injective key) {x : α} {l : List α} :
    x ∈ setByKey key l ↔ x ∈ l := by
  induction l with
  | nil => rfl
  | cons a rest ih =>
    show x ∈ insertByKey key a (setByKey key rest) ↔ _
    rw [mem_insertByKey hkey, ih, List.mem_cons]

theorem increasing_setByKey (hkey : Function.Injective key) (l : List α) :
    Increasing key (setByKey key l) := by
  induction l with
  | nil => exact List.Pairwise.nil
  | cons a rest ih => exact increasing_insertByKey a ih hkey

/-- Increasing lists with the same members are the same list. -/
theorem Increasing.eq {l l' : List α} (h : Increasing key l) (h' : Increasing key l')
    (hmem : ∀ x, x ∈ l ↔ x ∈ l') : l = l' := by
  have hnodup : ∀ {l : List α}, Increasing key l → l.Nodup := by
    intro l hl
    refine hl.imp fun {a b} hlt heq => ?_
    rw [heq] at hlt
    exact lt_irrefl _ hlt
  refine List.Perm.eq_of_pairwise (fun a b _ _ hab hba => (lt_asymm hab hba).elim) h h' ?_
  exact (List.perm_ext_iff_of_nodup (hnodup h) (hnodup h')).2 hmem

/-- Two lists stand for the same set if they have the same members. -/
theorem setByKey_eq_iff (hkey : Function.Injective key) {l l' : List α} :
    setByKey key l = setByKey key l' ↔ ∀ x, x ∈ l ↔ x ∈ l' := by
  constructor
  · intro h x
    rw [← mem_setByKey hkey, h, mem_setByKey hkey]
  · intro h
    refine (increasing_setByKey hkey l).eq (increasing_setByKey hkey l') fun x => ?_
    rw [mem_setByKey hkey, mem_setByKey hkey, h]

/-- Two lists of texts stand for the same set if they have the same members. -/
theorem textSet_eq_iff {l l' : List String} : textSet l = textSet l' ↔ ∀ x, x ∈ l ↔ x ∈ l' :=
  setByKey_eq_iff fun _ _ h => (List.cons.inj h).1

end QueryCanvas
