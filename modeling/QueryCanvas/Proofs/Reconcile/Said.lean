import QueryCanvas.Proofs.Reconcile.Relabelled
import QueryCanvas.Proofs.Reconcile.Taken

/-!
# What a text says for the block of a pointer

A text for the block of a pointer says a shape, or nothing if it cannot be read.  What it says stays
the same while the counter for new identifiers goes on.  Two different texts are equivalent exactly
if they say the same, and a text leaves a canvas as it is exactly if it says what the canvas means.
-/

set_option autoImplicit false

namespace QueryCanvas

open Sql

/-- The identifiers of the named queries are not given out from `n` on. -/
def Canvas.NamedBefore (n : Nat) (c : Canvas) : Prop :=
  ∀ id ∈ c.cteIds, ∀ k, n ≤ k → id ≠ EntityId.minted k

/-- The compact query of the block of a pointer, and the shape of this block, if there is one. -/
def Canvas.written? (c : Canvas) : Focus → Option (String × CanvasShape)
  | .root => some (render .compact c, c.shape)
  | focus => (c.block? focus).map fun b => (renderBlock .compact b, { ctes := [], root := b.shape })

namespace Reader

variable {r : Reader} {c : Canvas} {focus : Focus} {n m : Nat} {text : String}

/-- The shape of a text for the block of a pointer.  Below the root a text has no named queries. -/
def said (r : Reader) (c : Canvas) (focus : Focus) (text : String) : Reading CanvasShape :=
  match focus with
  | .root => r.shape text
  | focus => CanvasShape.mk [] <$> Block.shape <$> r.block c focus text

/-- What a text says where the counter stands at `n`. -/
def saidAt (r : Reader) (c : Canvas) (focus : Focus) (n : Nat) (text : String) :
    Except ReadFault CanvasShape :=
  ((r.said c focus text).run n).1

/-- What the canvas means by the block of a pointer: what its compact query says, or the shape of
the block if that query cannot be read. -/
def meant? (r : Reader) (c : Canvas) (focus : Focus) (n : Nat) : Option CanvasShape :=
  (c.written? focus).map fun p => (r.saidAt c focus n p.1).toOption.getD p.2

/-! ## The counter -/

/-- What a text says has no identifiers in it. -/
theorem reads_said {σ : Shift} (h : ∀ id ∈ c.cteIds, σ.rename id = id) :
    σ.Reads id (r.said c focus text) (r.said c focus text) := by
  have hscope : Scope.Looks σ.rename { catalog := r.catalog, ctes := c.scope focus }
      { catalog := r.catalog, ctes := c.scope focus } :=
    Scope.looks_self fun q hq => h q.id (List.mem_map_of_mem (scope_subset c focus hq))
  have hblock := Shift.Reads.map (h := id) (Shift.reads_readNestedText r.dialect hscope text)
    fun b => b.shape_relabel σ.injective
  cases focus with
  | root =>
    exact Shift.Reads.map (Shift.reads_readText r.dialect r.catalog text)
      fun next => next.shape_relabel σ.injective
  | subquery id | cte id => exact Shift.Reads.map hblock fun _ => rfl

theorem saidAt_later (h : c.NamedBefore n) (hn : n ≤ m) (text : String) :
    r.saidAt c focus m text = r.saidAt c focus n text := by
  obtain ⟨later, rfl⟩ := Nat.exists_eq_add_of_le hn
  have hread : (Shift.ahead n later).Reads id (r.said c focus text) (r.said c focus text) :=
    reads_said fun id hid => Shift.renamed_of_ne (h id hid)
  have hsame : r.saidAt c focus (n + later) text = Except.map id (r.saidAt c focus n text) :=
    congrArg Prod.fst (hread.result n (Nat.le_refl n))
  rw [hsame]
  cases r.saidAt c focus n text <;> rfl

theorem counter_said (text : String) : n ≤ ((r.said c focus text).run n).2 := by
  cases focus with
  | root => exact (r.reads_shape text n).counter
  | subquery id | cte id =>
    exact (Reads.map (R := fun _ _ => True) (Reads.map (R := fun _ _ => True)
      ((r.reads_block c _ text n).imp fun _ _ _ _ => trivial))).counter

/-! ## Equivalent texts -/

/-- Two results are the same exactly if both are there and equal. -/
theorem sameResult_iff {α : Type} [DecidableEq α] {a b : Reading α} :
    (sameResult a b n).1 = true ↔
      ∃ x, (a.run n).1 = .ok x ∧ (b.run (a.run n).2).1 = .ok x := by
  simp only [sameResult, bind, StateT.bind]
  generalize a.run n = p
  obtain ⟨left, k⟩ := p
  dsimp only
  generalize b.run k = p'
  obtain ⟨right, k'⟩ := p'
  cases left with
  | error fault =>
    refine iff_of_false Bool.false_ne_true ?_
    rintro ⟨_, hleft, -⟩
    cases hleft
  | ok x =>
    cases right with
    | error fault =>
      refine iff_of_false Bool.false_ne_true ?_
      rintro ⟨_, -, hright⟩
      cases hright
    | ok y =>
      change decide (x = y) = true ↔ _
      simp [eq_comm]

theorem sameResult_map {α β : Type} [DecidableEq α] [DecidableEq β] {a b : Reading α} {f : α → β}
    (hf : Function.Injective f) : sameResult (f <$> a) (f <$> b) = sameResult a b := by
  funext n
  simp only [sameResult, bind, StateT.bind, Reads.run_map]
  generalize a.run n = p
  obtain ⟨left, k⟩ := p
  cases left with
  | error fault =>
    dsimp only
    generalize b.run k = p'
    obtain ⟨right, k'⟩ := p'
    cases right <;> rfl
  | ok x =>
    dsimp only
    generalize b.run k = p'
    obtain ⟨right, k'⟩ := p'
    cases right with
    | error fault => rfl
    | ok y => simp [hf.eq_iff]

theorem areEquivalent_eq {a b : String} (hne : a ≠ b) :
    r.areEquivalent c focus a b = sameResult (r.said c focus a) (r.said c focus b) := by
  have hmk : Function.Injective (CanvasShape.mk []) := fun _ _ h => (CanvasShape.mk.inj h).2
  unfold areEquivalent
  rw [if_neg hne]
  cases focus with
  | root => rfl
  | subquery id | cte id => exact (sameResult_map hmk).symm

/-- Two texts are equivalent exactly if they are the same text or say the same. -/
theorem areEquivalent_iff (h : c.NamedBefore n) {a b : String} :
    (r.areEquivalent c focus a b n).1 = true ↔
      a = b ∨ ∃ shape, r.saidAt c focus n a = .ok shape ∧ r.saidAt c focus n b = .ok shape := by
  by_cases hne : a = b
  · unfold areEquivalent
    rw [if_pos hne]
    exact iff_of_true rfl (.inl hne)
  · have hlater : r.saidAt c focus ((r.said c focus a).run n).2 b = r.saidAt c focus n b :=
      saidAt_later h (counter_said a) b
    rw [areEquivalent_eq hne, sameResult_iff]
    change (∃ shape, r.saidAt c focus n a = .ok shape ∧ r.saidAt c focus _ b = .ok shape) ↔ _
    rw [hlater]
    exact ⟨.inr, fun hsame => hsame.resolve_left hne⟩

/-! ## Texts that change nothing -/

/-- A reading that is compared with a shape gives nothing exactly if it has that shape. -/
theorem compared_iff {α β : Type} [DecidableEq β] {m : Reading α} {shape : α → β} {f : Fresh β}
    {next : α → Canvas} :
    (((m >>= fun a => (f : Reading β) >>= fun current =>
        pure (if shape a = current then none else some (next a))).run n).1 =
        (.ok none : Except ReadFault (Option Canvas))) ↔
      ∃ a, (m.run n).1 = .ok a ∧ shape a = (f (m.run n).2).1 := by
  rw [Reads.run_bind]
  generalize m.run n = p
  obtain ⟨result, k⟩ := p
  cases result with
  | error fault => simp
  | ok a =>
    change (Except.ok (if shape a = (f k).1 then none else some (next a)) : Except _ _) = _ ↔ _
    simp

theorem run_map_fst {α β : Type} (f : α → β) (m : Reading α) :
    ((f <$> m).run n).1 = (m.run n).1.map f := by
  rw [Reads.run_map]
  generalize m.run n = p
  obtain ⟨result, k⟩ := p
  cases result <;> rfl

theorem saidAt_root : r.saidAt c .root n text = ((r.canvas text).run n).1.map Canvas.shape :=
  run_map_fst _ _

theorem saidAt_nested (hfocus : focus ≠ .root) : r.saidAt c focus n text =
    ((r.block c focus text).run n).1.map fun b => { ctes := [], root := b.shape } := by
  cases focus with
  | root => exact absurd rfl hfocus
  | subquery id | cte id =>
    change ((CanvasShape.mk [] <$> Block.shape <$> r.block c _ text).run n).1 = _
    rw [run_map_fst, run_map_fst]
    cases ((r.block c _ text).run n).1 <;> rfl

theorem writtenShape_fst :
    (r.writtenShape c n).1 = (r.saidAt c .root n (render .compact c)).toOption.getD c.shape := by
  unfold writtenShape
  simp only [bind, StateT.bind, saidAt, said]
  generalize (r.shape (render .compact c)).run n = p
  obtain ⟨result, k⟩ := p
  cases result <;> rfl

theorem writtenBlockShape_fst (hfocus : focus ≠ .root) (b : Block) :
    { ctes := [], root := (r.writtenBlockShape c focus b n).1 } =
      (r.saidAt c focus n (renderBlock .compact b)).toOption.getD
        { ctes := [], root := b.shape } := by
  rw [saidAt_nested hfocus]
  unfold writtenBlockShape
  simp only [bind, StateT.bind]
  generalize (r.block c focus (renderBlock .compact b)).run n = p
  obtain ⟨result, k⟩ := p
  cases result <;> rfl

theorem unchanged_iff_reconcile? : (r.reconcile c focus text n).1 = .unchanged ↔
    ((r.reconcile? c focus text).run n).1 = .ok none := by
  refine ⟨reconcile?_of_unchanged, fun h => ?_⟩
  unfold reconcile
  simp only [bind, StateT.bind]
  generalize (r.reconcile? c focus text).run n = p at h
  obtain ⟨result, k⟩ := p
  cases h
  rfl

theorem reconcile?_nested {old : Block} (hfocus : focus ≠ .root)
    (hold : c.block? focus = some old) : r.reconcile? c focus text = do
      let next ← r.block c focus text
      let current ← (r.writtenBlockShape c focus old : Fresh BlockShape)
      return if next.shape = current then none
        else some (replaceBlock c focus (old.carryOver next)) := by
  unfold reconcile?
  cases focus with
  | root => exact absurd rfl hfocus
  | subquery id | cte id => simp only [hold]

/-- A text changes nothing exactly if it says what the canvas means by the block. -/
theorem unchanged_iff (h : c.NamedBefore n) (hblock : (c.block? focus).isSome) (text : String) :
    (r.reconcile c focus text n).1 = .unchanged ↔
      ∃ shape, r.saidAt c focus n text = .ok shape ∧ r.meant? c focus n = some shape := by
  rw [unchanged_iff_reconcile?]
  by_cases hfocus : focus = .root
  · subst hfocus
    have hcounter := (r.reads_canvas text n).counter
    have hsaid : r.saidAt c .root n text = ((r.canvas text).run n).1.map Canvas.shape :=
      saidAt_root
    unfold reconcile?
    dsimp only
    rw [compared_iff, writtenShape_fst, saidAt_later h hcounter, hsaid]
    simp only [meant?, Canvas.written?, Option.map_some, Option.some.injEq]
    cases ((r.canvas text).run n).1 <;> simp [Except.map]
  · obtain ⟨old, hold⟩ := Option.isSome_iff_exists.1 hblock
    have hcounter := (r.reads_block c focus text n).counter
    have hwritten : c.written? focus =
        some (renderBlock .compact old, { ctes := [], root := old.shape }) := by
      cases focus with
      | root => exact absurd rfl hfocus
      | subquery id | cte id => exact Option.map_eq_some_iff.2 ⟨old, hold, rfl⟩
    have hmeant := writtenBlockShape_fst (r := r) (c := c) (n := ((r.block c focus text).run n).2)
      hfocus old
    rw [saidAt_later h hcounter] at hmeant
    rw [reconcile?_nested hfocus hold, compared_iff, meant?, hwritten, saidAt_nested hfocus,
      Option.map_some, ← hmeant]
    simp only [Option.some.injEq]
    cases ((r.block c focus text).run n).1 <;> simp [Except.map]

theorem error_of_map {α β : Type} {f : α → β} {result : Except ReadFault α} {reason : ReadFault}
    (h : result.map f = .error reason) : result = .error reason := by
  cases result with
  | error fault =>
    cases h
    rfl
  | ok a => cases h

/-- A reading that starts with one that fails. -/
theorem error_of_bind {α β : Type} {m : Reading α} {next : α → Reading β} {reason : ReadFault}
    (h : (m.run n).1 = .error reason) : ((m >>= next).run n).1 = .error reason := by
  rw [Reads.run_bind]
  generalize m.run n = p at h ⊢
  obtain ⟨result, k⟩ := p
  cases h
  rfl

/-- A text that says nothing for a block that is there is refused. -/
theorem refused_of_fault (hblock : (c.block? focus).isSome) {reason : ReadFault}
    (h : r.saidAt c focus n text = .error reason) :
    (r.reconcile c focus text n).1 = .refused reason := by
  obtain ⟨old, hold⟩ := Option.isSome_iff_exists.1 hblock
  have hfault : ((r.reconcile? c focus text).run n).1 = .error reason := by
    by_cases hfocus : focus = .root
    · subst hfocus
      rw [saidAt_root] at h
      exact error_of_bind (error_of_map h)
    · rw [saidAt_nested hfocus] at h
      rw [reconcile?_nested hfocus hold]
      exact error_of_bind (error_of_map h)
  unfold reconcile
  simp only [bind, StateT.bind]
  generalize (r.reconcile? c focus text).run n = p at hfault
  obtain ⟨result, k⟩ := p
  cases hfault
  rfl

end Reader

end QueryCanvas
