import QueryCanvas.Proofs.Reading.Steps

/-!
# Steps of reading that succeed

A step of reading that succeeds leads from a counter and a draft to a result, a counter and a draft.
For each way in which steps are built it is said exactly when they succeed and where they lead, so
that a successful reading can be taken apart from its end to its beginning.
-/

set_option autoImplicit false

namespace QueryCanvas.Sql

/-- From the counter `n` on, the reading succeeds with the result `a` and leaves the counter at
`n'`. -/
def Gives {α : Type} (m : Reading α) (n : Nat) (a : α) (n' : Nat) : Prop := m.run n = (.ok a, n')

/-- From the counter `n` and the draft `d` on, the step succeeds with the result `a` and leaves the
counter at `n'` and the draft as `d'`. -/
def Goes {α : Type} (m : Drafting α) (n : Nat) (d : Draft) (a : α) (n' : Nat) (d' : Draft) : Prop :=
  Gives (m.run d) n (a, d') n'

variable {α β γ : Type} {n n' : Nat} {d d' : Draft}

/-- A reading of whose result something is known succeeds. -/
theorem gives_of_toOption {α β : Type} {m : Reading α} {n : Nat} {f : α → β} {b : β}
    (h : (m.run n).1.toOption.map f = some b) : ∃ a n', Gives m n a n' ∧ f a = b := by
  rcases hrun : m.run n with ⟨_ | a, n'⟩
  · rw [hrun] at h
    cases h
  · rw [hrun] at h
    exact ⟨a, n', hrun, Option.some.inj h⟩

namespace Gives

variable {b : β}

@[simp] theorem pure_iff {a a' : α} : Gives (pure a) n a' n' ↔ a' = a ∧ n' = n := by
  constructor
  · rintro ⟨⟩
    exact ⟨rfl, rfl⟩
  · rintro ⟨rfl, rfl⟩
    rfl

@[simp] theorem bind_iff {m : Reading α} {f : α → Reading β} :
    Gives (m >>= f) n b n' ↔ ∃ a n₁, Gives m n a n₁ ∧ Gives (f a) n₁ b n' := by
  unfold Gives
  rw [Reads.run_bind]
  constructor
  · intro h
    split at h
    · rename_i a n₁ hrun
      exact ⟨a, n₁, hrun, h⟩
    · cases h
  · rintro ⟨a, n₁, hm, hf⟩
    rw [hm]
    exact hf

@[simp] theorem map_iff {m : Reading α} {f : α → β} :
    Gives (f <$> m) n b n' ↔ ∃ a, Gives m n a n' ∧ b = f a := by
  unfold Gives
  rw [Reads.run_map]
  constructor
  · intro h
    split at h
    · rename_i a n₁ hrun
      cases h
      exact ⟨a, hrun, rfl⟩
    · cases h
  · rintro ⟨a, hm, rfl⟩
    rw [hm]

@[simp] theorem refuse_iff {a : α} {construct : String} :
    ¬Gives (refuse construct) n a n' := by
  rintro ⟨⟩

@[simp] theorem guard_iff {c : Prop} [Decidable c] {construct : String} {k : Unit → Reading α}
    {a : α} : Gives (if c then refuse construct >>= k else k ()) n a n' ↔
      ¬c ∧ Gives (k ()) n a n' := by
  by_cases hc : c <;> simp [hc]

/-- A reading without a fault gives something. -/
theorem of_isOk {m : Reading α} (h : (m.run n).1.isOk = true) : ∃ a n', Gives m n a n' := by
  rcases hrun : m.run n with ⟨_ | a, n'⟩
  · rw [hrun] at h
    cases h
  · exact ⟨a, n', hrun⟩

@[simp] theorem mint_iff {id : EntityId} :
    Gives (Fresh.mint : Reading EntityId) n id n' ↔ id = EntityId.minted n ∧ n' = n + 1 := by
  constructor
  · rintro ⟨⟩
    exact ⟨rfl, rfl⟩
  · rintro ⟨rfl, rfl⟩
    rfl

end Gives

namespace Goes

open Drafting

@[simp] theorem pure_iff {a a' : α} :
    Goes (pure a) n d a' n' d' ↔ a' = a ∧ n' = n ∧ d' = d := by
  constructor
  · rintro ⟨⟩
    exact ⟨rfl, rfl, rfl⟩
  · rintro ⟨rfl, rfl, rfl⟩
    rfl

@[simp] theorem bind_iff {m : Drafting α} {f : α → Drafting β} {b : β} :
    Goes (m >>= f) n d b n' d' ↔
      ∃ a n₁ d₁, Goes m n d a n₁ d₁ ∧ Goes (f a) n₁ d₁ b n' d' := by
  have hstep : (m >>= f).run d = m.run d >>= fun p => (f p.1).run p.2 := rfl
  unfold Goes
  rw [hstep, Gives.bind_iff]
  constructor
  · rintro ⟨⟨a, d₁⟩, n₁, hm, hf⟩
    exact ⟨a, n₁, d₁, hm, hf⟩
  · rintro ⟨a, n₁, d₁, hm, hf⟩
    exact ⟨⟨a, d₁⟩, n₁, hm, hf⟩

/-- A step without a result, and then another one. -/
theorem then_iff {m : Drafting Unit} {k : Drafting β} {b : β} :
    Goes (m >>= fun _ => k) n d b n' d' ↔ ∃ n₁ d₁, Goes m n d () n₁ d₁ ∧ Goes k n₁ d₁ b n' d' :=
  bind_iff.trans ⟨fun ⟨(), n₁, d₁, hm, hk⟩ => ⟨n₁, d₁, hm, hk⟩,
    fun ⟨n₁, d₁, hm, hk⟩ => ⟨(), n₁, d₁, hm, hk⟩⟩

@[simp] theorem map_iff {m : Drafting α} {f : α → β} {b : β} :
    Goes (f <$> m) n d b n' d' ↔ ∃ a, Goes m n d a n' d' ∧ b = f a := by
  have hstep : f <$> m = m >>= fun a => pure (f a) := rfl
  rw [hstep, bind_iff]
  constructor
  · rintro ⟨a, n₁, d₁, hm, hf⟩
    obtain ⟨rfl, rfl, rfl⟩ := pure_iff.1 hf
    exact ⟨a, hm, rfl⟩
  · rintro ⟨a, hm, rfl⟩
    exact ⟨a, n', d', hm, pure_iff.2 ⟨rfl, rfl, rfl⟩⟩

@[simp] theorem refuse_iff {a : α} {construct : String} :
    ¬Goes (refuse construct) n d a n' d' := by
  rintro ⟨⟩

@[simp] theorem guard_iff {c : Prop} [Decidable c] {construct : String} {k : Unit → Drafting α}
    {a : α} : Goes (if c then refuse construct >>= k else k ()) n d a n' d' ↔
      ¬c ∧ Goes (k ()) n d a n' d' := by
  by_cases hc : c <;> simp [hc]

@[simp] theorem get_iff {a : Draft} :
    Goes MonadState.get n d a n' d' ↔ a = d ∧ n' = n ∧ d' = d := by
  constructor
  · rintro ⟨⟩
    exact ⟨rfl, rfl, rfl⟩
  · rintro ⟨rfl, rfl, rfl⟩
    rfl

@[simp] theorem modify_iff {f : Draft → Draft} {u : Unit} :
    Goes (modify f) n d u n' d' ↔ n' = n ∧ d' = f d := by
  constructor
  · rintro ⟨⟩
    exact ⟨rfl, rfl⟩
  · rintro ⟨rfl, rfl⟩
    rfl

@[simp] theorem edit_iff {f : Block → Block} {u : Unit} :
    Goes (edit f) n d u n' d' ↔ n' = n ∧ d' = { d with block := f d.block } :=
  modify_iff

@[simp] theorem mint_iff {id : EntityId} :
    Goes mint n d id n' d' ↔ id = EntityId.minted n ∧ n' = n + 1 ∧ d' = d := by
  constructor
  · rintro ⟨⟩
    exact ⟨rfl, rfl, rfl⟩
  · rintro ⟨rfl, rfl, rfl⟩
    rfl

@[simp] theorem ask_iff {f : Draft → Except ReadFault α} {a : α} :
    Goes (ask f) n d a n' d' ↔ f d = .ok a ∧ n' = n ∧ d' = d := by
  unfold ask
  rw [bind_iff]
  constructor
  · rintro ⟨d₀, n₁, d₁, hget, hf⟩
    obtain ⟨rfl, rfl, rfl⟩ := get_iff.1 hget
    split at hf
    · rename_i hok
      obtain ⟨rfl, rfl, rfl⟩ := pure_iff.1 hf
      exact ⟨hok, rfl, rfl⟩
    · cases hf
  · rintro ⟨hok, rfl, rfl⟩
    refine ⟨d', n', d', get_iff.2 ⟨rfl, rfl, rfl⟩, ?_⟩
    rw [hok]
    exact pure_iff.2 ⟨rfl, rfl, rfl⟩

/-- Reading that leaves the draft alone. -/
@[simp] theorem lift_iff {m : Reading α} {a : α} :
    Goes (m : Drafting α) n d a n' d' ↔ Gives m n a n' ∧ d' = d := by
  have hstep : (m : Drafting α).run d = m >>= fun a => pure (a, d) := rfl
  unfold Goes
  rw [hstep, Gives.bind_iff]
  constructor
  · rintro ⟨a', n₁, hm, hpure⟩
    obtain ⟨heq, rfl⟩ := Gives.pure_iff.1 hpure
    cases heq
    exact ⟨hm, rfl⟩
  · rintro ⟨hm, rfl⟩
    exact ⟨a, n', hm, Gives.pure_iff.2 ⟨rfl, rfl⟩⟩

@[simp] theorem forM_nil {step : γ → Drafting Unit} {u : Unit} :
    Goes ([].forM step) n d u n' d' ↔ n' = n ∧ d' = d := by
  have hstep : ([] : List γ).forM step = pure () := rfl
  rw [hstep, pure_iff]
  simp

@[simp] theorem forM_cons {step : γ → Drafting Unit} {c : γ} {l : List γ} {u : Unit} :
    Goes ((c :: l).forM step) n d u n' d' ↔
      ∃ n₁ d₁, Goes (step c) n d () n₁ d₁ ∧ Goes (l.forM step) n₁ d₁ u n' d' := by
  have hstep : (c :: l).forM step = step c >>= fun _ => l.forM step := rfl
  rw [hstep, then_iff]

/-- A step for each member of a list: what each step needs holds of all members. -/
theorem forM_forall {step : γ → Drafting Unit} {needs : γ → Prop}
    (h : ∀ c n d n' d', Goes (step c) n d () n' d' → needs c) {l : List γ} :
    ∀ {n n' : Nat} {d d' : Draft}, Goes (l.forM step) n d () n' d' → ∀ c ∈ l, needs c := by
  induction l with
  | nil => simp
  | cons c l ih =>
    intro n n' d d' hrun
    obtain ⟨n₁, d₁, hc, hl⟩ := forM_cons.1 hrun
    exact List.forall_mem_cons.2 ⟨h c n d n₁ d₁ hc, ih hl⟩

end Goes

end QueryCanvas.Sql
