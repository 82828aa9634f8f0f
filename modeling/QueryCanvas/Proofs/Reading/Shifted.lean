import QueryCanvas.Proofs.Canvas.Relabelled
import QueryCanvas.Proofs.Canvas.Serial
import QueryCanvas.Proofs.Reading.Steps

/-!
# Reading with a counter that stands further on

Two readings of one text differ only in where the counter for new identifiers stands.  A shift tells
how far the second counter is ahead, and under which new names what it gives out is what the first
one gives out.  Here are the rules by which two computations are seen to run alike under a shift,
and the questions that a draft answers alike.
-/

set_option autoImplicit false

namespace QueryCanvas.Sql

/-! ## Shifts -/

/-- A counter that stands further on than another one, from the first number on that matters, and
new names for the identifiers that the other one gives out. -/
structure Shift where
  first : Nat
  distance : Nat
  rename : EntityId → EntityId
  injective : Function.Injective rename
  minted : ∀ n, first ≤ n → rename (EntityId.minted n) = EntityId.minted (n + distance)

namespace Shift

open Classical in
/-- The new name of an identifier, if that is among those that are given out from a number on. -/
noncomputable def renamed (first distance : Nat) (id : EntityId) : EntityId :=
  if h : ∃ n, first ≤ n ∧ id = EntityId.minted n then EntityId.minted (h.choose + distance) else id

theorem renamed_minted {first distance n : Nat} (h : first ≤ n) :
    renamed first distance (EntityId.minted n) = EntityId.minted (n + distance) := by
  have hex : ∃ k, first ≤ k ∧ EntityId.minted n = EntityId.minted k := ⟨n, h, rfl⟩
  rw [renamed, dif_pos hex, ← EntityId.minted_injective hex.choose_spec.2]

theorem renamed_of_ne {first distance : Nat} {id : EntityId}
    (h : ∀ n, first ≤ n → id ≠ EntityId.minted n) : renamed first distance id = id :=
  dif_neg fun ⟨n, hn, heq⟩ => h n hn heq

/-- Names that were given out stay apart, and they do not become names that were there. -/
theorem renamed_injective (first distance : Nat) : Function.Injective (renamed first distance) := by
  have hcases : ∀ id, (∃ n, first ≤ n ∧ id = EntityId.minted n) ∨
      ∀ n, first ≤ n → id ≠ EntityId.minted n := fun id => by
    by_cases h : ∃ n, first ≤ n ∧ id = EntityId.minted n
    · exact .inl h
    · exact .inr fun n hn heq => h ⟨n, hn, heq⟩
  intro a b hab
  rcases hcases a with ⟨m, hm, rfl⟩ | ha <;> rcases hcases b with ⟨n, hn, rfl⟩ | hb
  · rw [renamed_minted hm, renamed_minted hn] at hab
    rw [Nat.add_right_cancel (EntityId.minted_injective hab)]
  · rw [renamed_minted hm, renamed_of_ne hb] at hab
    exact absurd hab.symm (hb _ (Nat.le_add_right_of_le hm))
  · rw [renamed_of_ne ha, renamed_minted hn] at hab
    exact absurd hab (ha _ (Nat.le_add_right_of_le hn))
  · rwa [renamed_of_ne ha, renamed_of_ne hb] at hab

/-- The shift that gives new names only to what is given out from a number on. -/
noncomputable def ahead (first distance : Nat) : Shift where
  first := first
  distance := distance
  rename := renamed first distance
  injective := renamed_injective first distance
  minted := fun _ h => renamed_minted h

/-! ## Running alike -/

variable {α β : Type} {σ : Shift}

/-- From the first number on that matters, the second computation gives with its counter what the
first one gives, under the new names `g`, and its counter stays as far ahead. -/
structure Yields (σ : Shift) (g : α → α) (m m' : Fresh α) : Prop where
  counter : ∀ n, σ.first ≤ n → n ≤ (m n).2
  result : ∀ n, σ.first ≤ n → m' (n + σ.distance) = (g (m n).1, (m n).2 + σ.distance)

/-- The second reading gives what the first one gives, or fails with the same fault. -/
def Reads (σ : Shift) (g : α → α) (m m' : Reading α) : Prop :=
  σ.Yields (Except.map g) m.run m'.run

end Shift

section Drafts

variable (f : EntityId → EntityId)

def SourceName.relabel (s : SourceName) : SourceName :=
  { s with table := s.table.map fun p => (f p.1, p.2) }

def Draft.relabel (d : Draft) : Draft :=
  { d with block := d.block.relabel f, sources := d.sources.map (SourceName.relabel f) }

def Scope.relabel (s : Scope) : Scope := { s with ctes := s.ctes.map (Cte.relabel f) }

end Drafts

/-- From a draft with new names the second step goes on as the first one does from the draft. -/
def Shift.Leads {α : Type} (σ : Shift) (g : α → α) (m m' : Drafting α) : Prop :=
  ∀ d, σ.Reads (Prod.map g (Draft.relabel σ.rename)) (m.run d) (m'.run (d.relabel σ.rename))

namespace Shift

variable {α β : Type} {σ : Shift} {g : α → α} {h : β → β}

namespace Yields

theorem pure {a a' : α} (h : a' = g a) : σ.Yields g (pure a) (pure a') :=
  ⟨fun n _ => Nat.le_refl n, fun _ _ => by rw [h]; rfl⟩

theorem bind {m m' : Fresh α} {k k' : α → Fresh β} (hm : σ.Yields g m m')
    (hk : ∀ a, σ.Yields h (k a) (k' (g a))) : σ.Yields h (m >>= k) (m' >>= k') := by
  refine ⟨fun n hn => ?_, fun n hn => ?_⟩
  · exact Nat.le_trans (hm.counter n hn) ((hk _).counter _ (Nat.le_trans hn (hm.counter n hn)))
  · show k' (m' (n + σ.distance)).1 (m' (n + σ.distance)).2 = _
    rw [hm.result n hn]
    exact (hk _).result _ (Nat.le_trans hn (hm.counter n hn))

theorem mint : σ.Yields σ.rename Fresh.mint Fresh.mint := by
  refine ⟨fun n _ => Nat.le_succ n, fun n hn => ?_⟩
  show (EntityId.minted (n + σ.distance), n + σ.distance + 1) = _
  rw [← σ.minted n hn, Nat.add_right_comm]
  rfl

end Yields

namespace Reads

theorem pure {a a' : α} (h : a' = g a) : σ.Reads g (pure a) (pure a') :=
  ⟨fun n _ => Nat.le_refl n, fun _ _ => by rw [h]; rfl⟩

theorem throw (fault : ReadFault) : σ.Reads g (throw fault) (throw fault) :=
  ⟨fun n _ => Nat.le_refl n, fun _ _ => rfl⟩

theorem refuse (construct : String) :
    σ.Reads g (Sql.refuse construct) (Sql.refuse construct) :=
  throw (.unsupported construct)

theorem bind {m m' : Reading α} {k k' : α → Reading β} (hm : σ.Reads g m m')
    (hk : ∀ a, σ.Reads h (k a) (k' (g a))) : σ.Reads h (m >>= k) (m' >>= k') := by
  change σ.Yields (Except.map h) (m.run >>= ExceptT.bindCont k) (m'.run >>= ExceptT.bindCont k')
  refine Yields.bind hm fun result => ?_
  cases result with
  | ok a => exact hk a
  | error fault => exact Yields.pure rfl

theorem map {m m' : Reading α} {u u' : α → β} (hm : σ.Reads g m m')
    (hu : ∀ a, u' (g a) = h (u a)) : σ.Reads h (u <$> m) (u' <$> m') :=
  bind hm fun a => pure (hu a)

/-- Two computations that cannot fail, in the course of reading. -/
theorem lift {m m' : Fresh α} (hm : σ.Yields g m m') :
    σ.Reads g (m : Reading α) (m' : Reading α) := by
  refine ⟨hm.counter, fun n hn => ?_⟩
  show (Except.ok (m' (n + σ.distance)).1, (m' (n + σ.distance)).2) = _
  rw [hm.result n hn]
  rfl

/-- Two readings that fail under the same condition, and go on alike otherwise. -/
theorem guard {c c' : Prop} [Decidable c] [Decidable c'] {construct : String}
    {k k' : Unit → Reading α} (hc : c' ↔ c) (hk : σ.Reads g (k ()) (k' ())) :
    σ.Reads g (if c then Sql.refuse construct >>= k else k ())
      (if c' then Sql.refuse construct >>= k' else k' ()) := by
  by_cases hif : c
  · rw [if_pos hif, if_pos (hc.2 hif)]
    exact refuse construct
  · rw [if_neg hif, if_neg (hif ∘ hc.1)]
    exact hk

end Reads

namespace Leads

theorem pure {a a' : α} (h : a' = g a) : σ.Leads g (pure a) (pure a') :=
  fun d => Reads.pure (a := (a, d)) (by rw [h]; rfl)

theorem throw (fault : ReadFault) :
    σ.Leads g (throw fault : Drafting α) (throw fault : Drafting α) :=
  fun _ => Reads.throw fault

theorem refuse (construct : String) :
    σ.Leads g (Sql.refuse construct) (Sql.refuse construct) :=
  throw (.unsupported construct)

theorem bind {m m' : Drafting α} {k k' : α → Drafting β} (hm : σ.Leads g m m')
    (hk : ∀ a, σ.Leads h (k a) (k' (g a))) : σ.Leads h (m >>= k) (m' >>= k') :=
  fun d => Reads.bind (hm d) fun p => hk p.1 p.2

/-- A step whose result holds no identifiers, and then another one. -/
theorem next {m m' : Drafting α} {k k' : α → Drafting β} (hm : σ.Leads id m m')
    (hk : ∀ a, σ.Leads h (k a) (k' a)) : σ.Leads h (m >>= k) (m' >>= k') :=
  bind hm hk

theorem map {m m' : Drafting α} {u u' : α → β} (hm : σ.Leads g m m')
    (hu : ∀ a, u' (g a) = h (u a)) : σ.Leads h (u <$> m) (u' <$> m') := by
  change σ.Leads h (m >>= fun a => Pure.pure (u a)) (m' >>= fun a => Pure.pure (u' a))
  exact bind hm fun a => pure (hu a)

/-- Two steps that fail under the same condition, and go on alike otherwise. -/
theorem guard {c c' : Prop} [Decidable c] [Decidable c'] {construct : String}
    {k k' : Unit → Drafting α} (hc : c' ↔ c) (hk : σ.Leads g (k ()) (k' ())) :
    σ.Leads g (if c then Sql.refuse construct >>= k else k ())
      (if c' then Sql.refuse construct >>= k' else k' ()) := by
  by_cases hif : c
  · rw [if_pos hif, if_pos (hc.2 hif)]
    exact refuse construct
  · rw [if_neg hif, if_neg (hif ∘ hc.1)]
    exact hk

/-- A look at the draft. -/
theorem get : σ.Leads (Draft.relabel σ.rename) MonadState.get MonadState.get :=
  fun d => Reads.pure (a := (d, d)) rfl

/-- A question that both drafts answer alike. -/
theorem ask {u u' : Draft → Except ReadFault α}
    (hu : ∀ d, u' (d.relabel σ.rename) = (u d).map g) :
    σ.Leads g (Drafting.ask u) (Drafting.ask u') := by
  refine bind get fun d => ?_
  rw [hu]
  cases u d with
  | ok a => exact pure rfl
  | error fault => exact throw fault

/-- A question whose answer holds no identifiers. -/
theorem asked {u u' : Draft → Except ReadFault α} (hu : ∀ d, u' (d.relabel σ.rename) = u d) :
    σ.Leads id (Drafting.ask u) (Drafting.ask u') := by
  refine ask fun d => ?_
  rw [hu]
  cases u d <;> rfl

theorem mint : σ.Leads σ.rename Drafting.mint Drafting.mint :=
  fun d => Reads.bind (Reads.lift Yields.mint) fun id => Reads.pure (a := (id, d)) rfl

theorem update {u u' : Draft → Draft}
    (hu : ∀ d, u' (d.relabel σ.rename) = (u d).relabel σ.rename) :
    σ.Leads id (modify u) (modify u') :=
  fun d => Reads.pure (a := ((), u d)) (congrArg (Prod.mk ()) (hu d))

theorem edit {u u' : Block → Block}
    (hu : ∀ b : Block, u' (b.relabel σ.rename) = (u b).relabel σ.rename) :
    σ.Leads id (Drafting.edit u) (Drafting.edit u') :=
  update fun d => by simp only [Draft.relabel, hu]

/-- Readings that leave the draft alone. -/
theorem lift {m m' : Reading α} (hm : σ.Reads g m m') :
    σ.Leads g (m : Drafting α) (m' : Drafting α) :=
  fun d => Reads.bind hm fun a => Reads.pure (a := (a, d)) rfl

/-- A step for each member of a list. -/
theorem forM {γ : Type} {step step' : γ → Drafting Unit}
    (hstep : ∀ c, σ.Leads id (step c) (step' c)) (l : List γ) :
    σ.Leads id (l.forM step) (l.forM step') := by
  induction l with
  | nil => exact pure rfl
  | cons c rest ih => exact next (hstep c) fun _ => ih

end Leads

end Shift

/-! ## Questions to a draft -/

namespace Draft

variable {f : EntityId → EntityId} (d : Draft)

@[simp] theorem relabel_block : (d.relabel f).block = d.block.relabel f := rfl

theorem source?_relabel (name : String) :
    (d.relabel f).source? name = (d.source? name).map (SourceName.relabel f) := by
  simp only [source?, relabel, List.find?_map]
  rfl

theorem owner?_relabel (column : String) :
    (d.relabel f).owner? column = (d.owner? column).map (Table.relabel f) := by
  have howners : (d.relabel f).owners column = (d.owners column).map (Table.relabel f) := by
    simp only [owners, relabel_block, Block.relabel_tables, List.filter_map]
    rfl
  simp only [owner?, howners, relabel_block, Block.relabel_tables, Block.subqueriesIn_relabel]
  rcases d.block.tables with _ | ⟨t, _ | ⟨u, rest⟩⟩ <;>
    rcases d.block.subqueriesIn .fromClause with _ | ⟨s, nested⟩ <;>
    rcases d.owners column with _ | ⟨v, _ | ⟨w, others⟩⟩ <;> rfl

theorem declared_relabel (hf : Function.Injective f) (table : EntityId) (column : String) :
    (d.relabel f).declared (f table) column = d.declared table column := by
  simp only [declared, relabel_block, Block.table?_relabel hf]
  cases d.block.table? table <;> rfl

theorem columnText_relabel (hf : Function.Injective f) (c : ColumnName) :
    (d.relabel f).columnText c = d.columnText c := by
  unfold columnText
  cases c.qualifier with
  | some qualifier =>
    simp only [source?_relabel]
    cases d.source? qualifier with
    | none => rfl
    | some source =>
      cases htable : source.table with
      | none => simp [SourceName.relabel, htable]
      | some p => simp [SourceName.relabel, htable, declared_relabel d hf]
  | none =>
    simp only [owner?_relabel]
    cases d.owner? c.column with
    | none => rfl
    | some t => simp [declared_relabel d hf]

theorem expressionText_relabel (hf : Function.Injective f) (e : Expr) :
    (d.relabel f).expressionText e = d.expressionText e := by
  induction e using expressionText.induct with
  | case1 left op right ihleft ihright => rw [expressionText, expressionText, ihleft, ihright]
  | case2 e ih => rw [expressionText, expressionText, ih]
  | case3 e hbinary hnested c hc =>
    simp only [expressionText, hc, columnText_relabel d hf]
  | case4 e hbinary hnested hnone =>
    simp only [expressionText, hnone]

theorem argumentText_relabel (hf : Function.Injective f) :
    (d.relabel f).argumentText = d.argumentText := by
  funext argument
  cases argument with
  | expr e => simp only [argumentText, expressionText_relabel d hf]
  | _ => rfl

theorem aggregate?_relabel (hf : Function.Injective f) (function : List Name)
    (arguments : Arguments) (tail : CallTail) :
    (d.relabel f).aggregate? function arguments tail = d.aggregate? function arguments tail := by
  simp only [aggregate?, argumentText_relabel d hf]

end Draft

variable {f : EntityId → EntityId}

theorem joinSide_relabel (hf : Function.Injective f) (e : Expr) (d : Draft) :
    joinSide e (d.relabel f) = (joinSide e d).map fun side => (f side.1, side.2) := by
  unfold joinSide
  split
  · rename_i qualifier column _
    rw [Draft.source?_relabel]
    rcases d.source? qualifier with _ | ⟨key, _ | ⟨id, name⟩⟩
    · rfl
    · rfl
    · simp [SourceName.relabel, Draft.declared_relabel d hf, Except.map]
  · rfl

theorem selectionOwner_relabel (c : ColumnName) (d : Draft) :
    selectionOwner c (d.relabel f) = (selectionOwner c d).map f := by
  unfold selectionOwner
  cases c.qualifier with
  | some qualifier =>
    simp only [Draft.source?_relabel]
    rcases d.source? qualifier with _ | ⟨key, _ | ⟨id, name⟩⟩ <;> rfl
  | none =>
    simp only [Draft.owner?_relabel]
    cases d.owner? c.column <;> rfl

theorem sortColumn_relabel (hf : Function.Injective f) (e : Expr) (d : Draft) :
    sortColumn e (d.relabel f) = sortColumn e d := by
  have hother : ∀ c, (d.relabel f).columnText c = d.columnText c := d.columnText_relabel hf
  simp only [sortColumn, hother, Draft.aggregate?_relabel d hf]
  rfl

end QueryCanvas.Sql
