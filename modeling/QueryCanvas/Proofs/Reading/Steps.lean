import QueryCanvas.Sql.Reading

/-!
# Rules for the steps of reading

Reading carries a counter for new identifiers along, may fail, and inside a block changes a draft.
What is said of a step is said by what holds before it and what holds after it if it succeeds.
The counter never goes back, not even in a step that fails.
-/

set_option autoImplicit false

namespace QueryCanvas.Sql

/-! ## Computations with new identifiers -/

/-- From the counter `n` on, the computation has the property `Q` of its result and of the counter
after it, and the counter does not go back. -/
structure Yields {α : Type} (n : Nat) (m : Fresh α) (Q : α → Nat → Prop) : Prop where
  counter : n ≤ (m n).2
  result : Q (m n).1 (m n).2

namespace Yields

variable {α β : Type} {n : Nat} {Q : α → Nat → Prop} {R : β → Nat → Prop}

theorem pure {a : α} (h : Q a n) : Yields n (pure a) Q := ⟨Nat.le_refl n, h⟩

theorem mint {Q : EntityId → Nat → Prop} (h : Q (EntityId.minted n) (n + 1)) :
    Yields n Fresh.mint Q :=
  ⟨Nat.le_succ n, h⟩

theorem imp {Q' : α → Nat → Prop} {m : Fresh α} (hm : Yields n m Q)
    (h : ∀ a n', Q a n' → Q' a n') : Yields n m Q' :=
  ⟨hm.counter, h _ _ hm.result⟩

theorem bind {m : Fresh α} {f : α → Fresh β} (hm : Yields n m Q)
    (hf : ∀ a n₁, n ≤ n₁ → Q a n₁ → Yields n₁ (f a) R) : Yields n (m >>= f) R := by
  have hnext := hf (m n).1 (m n).2 hm.counter hm.result
  exact ⟨Nat.le_trans hm.counter hnext.counter, hnext.result⟩

end Yields

/-! ## Reading a part -/

/-- From the counter `n` on, the reading has the property `Q` of its result and of the counter
after it, if it succeeds. -/
structure Reads {α : Type} (n : Nat) (m : Reading α) (Q : α → Nat → Prop) : Prop where
  counter : n ≤ (m.run n).2
  result : ∀ a n', m.run n = (.ok a, n') → Q a n'

namespace Reads

variable {α β : Type} {n : Nat} {Q Q' : α → Nat → Prop} {R : β → Nat → Prop}

theorem pure {a : α} (h : Q a n) : Reads n (pure a) Q :=
  ⟨Nat.le_refl n, by rintro _ _ ⟨⟩; exact h⟩

theorem refuse (construct : String) : Reads n (Sql.refuse construct) Q :=
  ⟨Nat.le_refl n, by rintro _ _ ⟨⟩⟩

theorem counter_le {m : Reading α} {result : Except ReadFault α} {n' : Nat} (h : Reads n m Q)
    (hrun : m.run n = (result, n')) : n ≤ n' := by
  have hcounter := h.counter
  rwa [hrun] at hcounter

theorem imp {m : Reading α} (hm : Reads n m Q) (himp : ∀ a n', n ≤ n' → Q a n' → Q' a n') :
    Reads n m Q' :=
  ⟨hm.counter, fun a n' hrun => himp a n' (hm.counter_le hrun) (hm.result a n' hrun)⟩

/-- A reading and then another one that goes on with its result. -/
theorem run_bind (m : Reading α) (f : α → Reading β) (n : Nat) :
    (m >>= f).run n = match m.run n with
      | (.ok a, n₁) => (f a).run n₁
      | (.error e, n₁) => (.error e, n₁) := by
  have hstep : (m >>= f).run n = (ExceptT.bindCont f (m.run n).1) (m.run n).2 := rfl
  rw [hstep]
  rcases m.run n with ⟨_ | _, _⟩ <;> rfl

theorem run_map (f : α → β) (m : Reading α) (n : Nat) :
    (f <$> m).run n = match m.run n with
      | (.ok a, n₁) => (.ok (f a), n₁)
      | (.error e, n₁) => (.error e, n₁) := by
  have hstep : (f <$> m).run n = (m >>= fun a => Pure.pure (f a)).run n := rfl
  rw [hstep, run_bind]
  split <;> rfl

theorem bind {m : Reading α} {f : α → Reading β} (hm : Reads n m Q)
    (hf : ∀ a n₁, n ≤ n₁ → Q a n₁ → Reads n₁ (f a) R) : Reads n (m >>= f) R := by
  have hbind := run_bind m f n
  have hcounter := hm.counter
  cases hrun : m.run n with
  | mk r n₁ =>
    rw [hrun] at hbind hcounter
    cases r with
    | error e =>
      refine ⟨by rw [hbind]; exact hcounter, fun b n' hb => ?_⟩
      rw [hbind] at hb
      cases hb
    | ok a =>
      have hnext := hf a n₁ hcounter (hm.result a n₁ hrun)
      refine ⟨by rw [hbind]; exact Nat.le_trans hcounter hnext.counter, fun b n' hb => ?_⟩
      rw [hbind] at hb
      exact hnext.result b n' hb

theorem map {m : Reading α} {f : α → β} (hm : Reads n m fun a n' => R (f a) n') :
    Reads n (f <$> m) R :=
  bind (f := fun a => Pure.pure (f a)) hm fun _ _ _ h => Reads.pure h

/-- A computation that cannot fail, in the course of reading. -/
theorem lift {m : Fresh α} (h : Yields n m Q) : Reads n (m : Reading α) Q :=
  ⟨h.counter, by rintro _ _ ⟨⟩; exact h.result⟩

/-- A reading with what comes of it, be it a fault. -/
theorem run {m : Reading α} (h : Reads n m Q) :
    Yields n m.run fun r n' => ∀ a, r = .ok a → Q a n' :=
  ⟨h.counter, fun a ha => h.result a _ (Prod.ext ha rfl)⟩

/-- A reading that succeeds does so by a run. -/
theorem ran {m : Reading α} (h : Reads n m Q) :
    Reads n m fun a n' => m.run n = (.ok a, n') ∧ Q a n' :=
  ⟨h.counter, fun a n' hrun => ⟨hrun, h.result a n' hrun⟩⟩

/-- A reading that fails if a condition holds, and goes on if it does not. -/
theorem guard {c : Prop} [Decidable c] {construct : String} {k : Unit → Reading α}
    (h : ¬c → Reads n (k ()) Q) :
    Reads n (if c then Sql.refuse construct >>= k else k ()) Q := by
  split
  · exact bind (Q := fun _ _ => False) (refuse construct) fun _ _ _ h => h.elim
  · rename_i hc
    exact h hc

end Reads

/-! ## Going on with a draft -/

/-- From every counter and draft with `P`, a step that succeeds leads to a result, a counter and a
draft with `Q`. -/
def Leads {α : Type} (P : Nat → Draft → Prop) (m : Drafting α) (Q : α → Nat → Draft → Prop) :
    Prop :=
  ∀ n d, P n d → Reads n (m.run d) fun p n' => Q p.1 n' p.2

namespace Leads

variable {α β : Type} {P : Nat → Draft → Prop} {Q Q' : α → Nat → Draft → Prop}
  {R : β → Nat → Draft → Prop}

theorem pure {a : α} (h : ∀ n d, P n d → Q a n d) : Leads P (pure a) Q :=
  fun n d hP => Reads.pure (h n d hP)

theorem refuse (construct : String) : Leads P (Sql.refuse construct) Q :=
  fun _ _ _ => ⟨Nat.le_refl _, by rintro _ _ ⟨⟩⟩

theorem bind {m : Drafting α} {f : α → Drafting β} (hm : Leads P m Q)
    (hf : ∀ a, Leads (Q a) (f a) R) : Leads P (m >>= f) R :=
  fun n d hP => Reads.bind (f := fun p : α × Draft => (f p.1).run p.2) (hm n d hP)
    fun p n₁ _ hQ => hf p.1 n₁ p.2 hQ

theorem map {m : Drafting α} {f : α → β} (hm : Leads P m fun a => R (f a)) :
    Leads P (f <$> m) R :=
  bind (f := fun a => Pure.pure (f a)) hm fun _ => pure fun _ _ h => h

/-- A step that fails if a condition holds, and goes on if it does not. -/
theorem guard {c : Prop} [Decidable c] {construct : String} {k : Unit → Drafting α}
    (h : ¬c → Leads P (k ()) Q) :
    Leads P (if c then Sql.refuse construct >>= k else k ()) Q := by
  split
  · exact bind (Q := fun _ _ _ => False) (refuse construct) fun _ _ _ h => h.elim
  · rename_i hc
    exact h hc

/-- A look at the draft. -/
theorem get {Q : Draft → Nat → Draft → Prop} (h : ∀ n d, P n d → Q d n d) :
    Leads P MonadState.get Q :=
  fun n d hP => Reads.pure (h n d hP)

theorem ask {f : Draft → Except ReadFault α} (h : ∀ n d a, P n d → f d = .ok a → Q a n d) :
    Leads P (Drafting.ask f) Q := by
  refine bind (get (Q := fun d' n d => P n d ∧ d' = d) fun _ _ hP => ⟨hP, rfl⟩) fun d n d' hP => ?_
  obtain ⟨hP, rfl⟩ := hP
  cases hf : f d with
  | ok a => exact Reads.pure (h n d a hP hf)
  | error e => exact ⟨Nat.le_refl n, by rintro _ _ ⟨⟩⟩

/-- A question whose answer does not matter. -/
theorem asked {f : Draft → Except ReadFault α} : Leads P (Drafting.ask f) fun _ => P :=
  ask fun _ _ _ hP _ => hP

theorem mint {Q : EntityId → Nat → Draft → Prop}
    (h : ∀ n d, P n d → Q (EntityId.minted n) (n + 1) d) : Leads P Drafting.mint Q :=
  fun n d hP => ⟨Nat.le_succ n, by rintro _ _ ⟨⟩; exact h n d hP⟩

theorem update {f : Draft → Draft} {Q : Unit → Nat → Draft → Prop}
    (h : ∀ n d, P n d → Q () n (f d)) : Leads P (modify f) Q :=
  fun n d hP => ⟨Nat.le_refl n, by rintro _ _ ⟨⟩; exact h n d hP⟩

theorem edit {f : Block → Block} {Q : Unit → Nat → Draft → Prop}
    (h : ∀ n d, P n d → Q () n { d with block := f d.block }) : Leads P (Drafting.edit f) Q :=
  update h

/-- Reading that leaves the draft alone. -/
theorem lift {m : Reading α} (h : ∀ n d, P n d → Reads n m fun a n' => Q a n' d) :
    Leads P (m : Drafting α) Q :=
  fun n d hP => Reads.bind (h n d hP) fun _ _ _ hQ => Reads.pure hQ

/-- The same step for each member of a list. -/
theorem forM {γ : Type} {step : γ → Drafting Unit} (h : ∀ c, Leads P (step c) fun _ => P)
    (l : List γ) : Leads P (l.forM step) fun _ => P := by
  induction l with
  | nil => exact pure fun _ _ hP => hP
  | cons c rest ih => exact bind (h c) fun _ => ih

end Leads

end QueryCanvas.Sql
