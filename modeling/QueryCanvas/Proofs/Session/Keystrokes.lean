import QueryCanvas.Proofs.Reconcile.Relabelled
import QueryCanvas.Proofs.Session.Changes

/-!
# Texts that are refused leave no trace

While a query is typed, most of what stands in the editor cannot be drawn.  Such a text is refused
whole, also where part of it was read before the fault was found: the canvas stays, the text is in
the editor, and all that is left of it is that the counter for new identifiers has gone on.
Whatever is typed next is received as if the refused texts had never been typed.
-/

set_option autoImplicit false

namespace QueryCanvas

open Sql

namespace Session

variable {s s' : Session} {n : Nat}

/-! ## Single texts -/

theorem typeText_eq (s : Session) (text : String) (n : Nat) :
    s.typeText text n =
      (s.received text (s.reader.reconcile s.canvas s.focus text n).1,
        (s.reader.reconcile s.canvas s.focus text n).2) := by
  unfold typeText
  change (s.reader.reconcile s.canvas s.focus text >>= _) n = _
  simp only [bind, StateT.bind]
  cases s.reader.reconcile s.canvas s.focus text n with
  | mk what m => cases what <;> rfl

/-- What a session is after a text, and what is answered, by what comes of the text. -/
theorem run_typed (s : Session) (text : String) (n : Nat) :
    (s.run (.type text) n).1.1 =
        (s.received text (s.reader.reconcile s.canvas s.focus text n).1).1.count ∧
      (s.run (.type text) n).1.2.1 =
        .typed (s.received text (s.reader.reconcile s.canvas s.focus text n).1).2 := by
  unfold run
  simp only [bind, StateT.bind, typeText_eq]
  exact ⟨rfl, rfl⟩

/-- Two sessions in which a text is read against the same canvas, for the same block, in the same
language. -/
structure SameGround (s s' : Session) : Prop where
  canvas : s'.canvas = s.canvas
  focus : s'.focus = s.focus
  settings : s'.settings = s.settings
  catalog : s'.catalog = s.catalog

theorem SameGround.refl (s : Session) : s.SameGround s := ⟨rfl, rfl, rfl, rfl⟩

theorem SameGround.trans {s'' : Session} (h : s.SameGround s') (h' : s'.SameGround s'') :
    s.SameGround s'' :=
  ⟨h'.canvas.trans h.canvas, h'.focus.trans h.focus, h'.settings.trans h.settings,
    h'.catalog.trans h.catalog⟩

/-- A text is answered as refused where what comes of it is a fault. -/
theorem reply_of_refused {text : String} {reason : ReadFault}
    (h : (s.reader.reconcile s.canvas s.focus text n).1 = .refused reason) :
    (s.run (.type text) n).1.2.1 = .typed (.refused reason) := by
  rw [(s.run_typed text n).2, h]
  rfl

/-- A refused text stays in the editor and changes nothing else that texts are read against. -/
theorem run_refused {text : String} {reason : ReadFault}
    (h : (s.run (.type text) n).1.2.1 = .typed (.refused reason)) :
    s.SameGround (s.run (.type text) n).1.1 ∧ (s.run (.type text) n).1.1.editor = text ∧
      n ≤ (s.run (.type text) n).2 := by
  obtain ⟨hnext, hreply⟩ := s.run_typed text n
  rw [hreply] at h
  rw [hnext]
  have hcounter := (s.yields_turns n (.type text)).counter
  cases hwhat : (s.reader.reconcile s.canvas s.focus text n).1 with
  | unchanged => rw [hwhat] at h; cases h
  | replaced c => rw [hwhat] at h; cases h
  | refused fault => exact ⟨⟨rfl, rfl, rfl, rfl⟩, rfl, hcounter⟩

/-! ## Several texts -/

/-- The session after several texts, one after the other. -/
def typed (s : Session) (texts : List String) : Fresh Session := s.runAll (texts.map .type)

/-- Each of the texts is refused when its turn comes. -/
def RefusesAll (s : Session) (n : Nat) (texts : List String) : Prop :=
  ∀ before text, before ++ [text] <+: texts → ∃ reason,
    ((s.typed before n).1.run (.type text) (s.typed before n).2).1.2.1 = .typed (.refused reason)

theorem refusesAll_nil (s : Session) (n : Nat) : s.RefusesAll n [] := by
  intro before text hfront
  simp at hfront

/-- One more text is refused after the others. -/
theorem RefusesAll.push {before : List String} (h : s.RefusesAll n before) {text : String}
    (reason : ReadFault)
    (hlast : ((s.typed before n).1.reader.reconcile (s.typed before n).1.canvas
      (s.typed before n).1.focus text (s.typed before n).2).1 = .refused reason) :
    s.RefusesAll n (before ++ [text]) := by
  intro front last hfront
  rcases List.prefix_concat_iff.1 hfront with heq | hfront
  · obtain ⟨rfl, rfl⟩ := List.append_singleton_inj.1 heq
    exact ⟨reason, reply_of_refused hlast⟩
  · exact h front last hfront

theorem typed_push (s : Session) (before : List String) (text : String) (n : Nat) :
    s.typed (before ++ [text]) n =
      (((s.typed before n).1.run (.type text) (s.typed before n).2).1.1,
        ((s.typed before n).1.run (.type text) (s.typed before n).2).2) := by
  rw [typed, List.map_append]
  exact runAll_push s _ _ n

/-- After refused texts a text is read against what it was read against before. -/
theorem typed_sameGround {texts : List String} (h : s.RefusesAll n texts) :
    s.SameGround (s.typed texts n).1 ∧ n ≤ (s.typed texts n).2 := by
  induction texts using List.reverseRecOn with
  | nil => exact ⟨SameGround.refl s, Nat.le_refl n⟩
  | append_singleton before text ih =>
    obtain ⟨hground, hn⟩ := ih fun front last hfront =>
      h front last (hfront.trans (List.prefix_append _ _))
    obtain ⟨reason, hrefused⟩ := h before text (List.prefix_refl _)
    obtain ⟨hnext, -, hm⟩ := run_refused hrefused
    rw [typed_push]
    exact ⟨hground.trans hnext, Nat.le_trans hn hm⟩

/-! ## The next text -/

/-- Two sessions are alike up to the names of identifiers that were given out from a number on. -/
structure Alike (n : Nat) (s s' : Session) : Prop where
  canvas : ∃ f : EntityId → EntityId, Function.Injective f ∧
    (∀ id, (∀ k, n ≤ k → id ≠ EntityId.minted k) → f id = id) ∧ s'.canvas = s.canvas.relabel f
  focus : s'.focus = s.focus
  editor : s'.editor = s.editor
  override : s'.override = s.override
  textInForce : s'.textInForce = s.textInForce

/-- A text for a block that is gone is refused at once. -/
theorem reconcile_of_none (r : Reader) {c : Canvas} {focus : Focus} (h : c.block? focus = none)
    (text : String) (m : Nat) :
    (r.reconcile c focus text m).1 =
      .refused (.unsupported "editing a context that no longer exists") := by
  have hread : r.reconcile? c focus text = refuse "editing a context that no longer exists" := by
    cases focus with
    | root => cases h
    | subquery id | cte id => simp only [Reader.reconcile?, h]
  rw [Reader.reconcile, hread]
  rfl

/-- What comes of a text is the same when the counter has gone on. -/
theorem reconcile_later (r : Reader) {c : Canvas}
    (hnew : ∀ id ∈ c.ids, ∀ k, n ≤ k → id ≠ EntityId.minted k) (focus : Focus) (text : String)
    (later : Nat) :
    ∃ f : EntityId → EntityId, Function.Injective f ∧
      (∀ id, (∀ k, n ≤ k → id ≠ EntityId.minted k) → f id = id) ∧
      (r.reconcile c focus text (n + later)).1 = (r.reconcile c focus text n).1.relabel f := by
  let σ := Shift.ahead n later
  have hold : ∀ id, (∀ k, n ≤ k → id ≠ EntityId.minted k) → σ.rename id = id :=
    fun id hid => Shift.renamed_of_ne hid
  have hfixed : ∀ id ∈ c.ids, σ.rename id = id := fun id hid => hold id (hnew id hid)
  refine ⟨σ.rename, σ.injective, hold, ?_⟩
  cases hblock : c.block? focus with
  | none => rw [reconcile_of_none r hblock, reconcile_of_none r hblock, Reconciliation.relabel]
  | some b =>
    have hrun := (Shift.yields_reconcile (σ := σ) r c focus text).result n (Nat.le_refl n)
    rw [c.relabel_eq_self hfixed, Focus.relabel_eq_self hfixed hblock] at hrun
    exact congrArg Prod.fst hrun

theorem textInForce_count (s : Session) : s.count.textInForce = s.textInForce := by
  unfold textInForce generated count
  rfl

/-- What a text leaves in a session whose canvas has other identifiers. -/
theorem received_alike (hground : s.SameGround s') {f : EntityId → EntityId}
    (hf : Function.Injective f) (hold : ∀ id, (∀ k, n ≤ k → id ≠ EntityId.minted k) → f id = id)
    (hnew : ∀ id ∈ s.canvas.ids, ∀ k, n ≤ k → id ≠ EntityId.minted k)
    (text : String) (what : Reconciliation) :
    (s'.received text (what.relabel f)).2 = (s.received text what).2 ∧
      Alike n (s.received text what).1.count (s'.received text (what.relabel f)).1.count := by
  obtain ⟨hcanvas, hfocus, hsettings, hcatalog⟩ := hground
  have hself : s.canvas.relabel f = s.canvas :=
    s.canvas.relabel_eq_self fun id hid => hold id (hnew id hid)
  cases what with
  | unchanged =>
    refine ⟨rfl, ⟨f, hf, hold, hcanvas.trans hself.symm⟩, hfocus, rfl, rfl, ?_⟩
    rw [textInForce_count, textInForce_count]
    simp [received, Reconciliation.relabel, textInForce, generated, hsettings, hcanvas]
  | replaced c =>
    refine ⟨rfl, ⟨f, hf, hold, rfl⟩, hfocus, rfl, rfl, ?_⟩
    rw [textInForce_count, textInForce_count]
    simp [received, Reconciliation.relabel, textInForce, generated, hsettings, render_relabel hf]
  | refused reason =>
    refine ⟨rfl, ⟨f, hf, hold, hcanvas.trans hself.symm⟩, hfocus, rfl, rfl, ?_⟩
    rw [textInForce_count, textInForce_count]
    simp [received, Reconciliation.relabel, textInForce]

/-- Texts that are refused leave no trace: after each of them the canvas is as it was and the text
is in the editor, and what is typed next is answered and received as if it had been typed at
once, up to the names of new identifiers. -/
theorem refused_texts_leave_no_trace {texts : List String}
    (hnew : ∀ id ∈ s.canvas.ids, ∀ k, n ≤ k → id ≠ EntityId.minted k)
    (hrefused : s.RefusesAll n texts) :
    (∀ before text, before ++ [text] <+: texts →
      (s.typed (before ++ [text]) n).1.canvas = s.canvas ∧
        (s.typed (before ++ [text]) n).1.editor = text) ∧
    ∀ text,
      ((s.typed texts n).1.run (.type text) (s.typed texts n).2).1.2.1 =
        (s.run (.type text) n).1.2.1 ∧
      Alike n (s.run (.type text) n).1.1
        ((s.typed texts n).1.run (.type text) (s.typed texts n).2).1.1 := by
  refine ⟨fun before text hfront => ?_, fun text => ?_⟩
  · have hground := (typed_sameGround (n := n) fun front last hlast =>
      hrefused front last (hlast.trans hfront)).1
    obtain ⟨reason, hreason⟩ := hrefused before text hfront
    refine ⟨hground.canvas, ?_⟩
    rw [typed_push]
    exact (run_refused hreason).2.1
  · obtain ⟨hground, hn⟩ := typed_sameGround hrefused
    obtain ⟨later, hlater⟩ := Nat.exists_eq_add_of_le hn
    obtain ⟨f, hf, hold, hwhat⟩ := reconcile_later s.reader hnew s.focus text later
    have hreader : (s.typed texts n).1.reader = s.reader := by
      rw [reader, reader, hground.settings, hground.catalog]
    obtain ⟨hreply, halike⟩ := received_alike hground hf hold hnew text
      (s.reader.reconcile s.canvas s.focus text n).1
    obtain ⟨hdirect, hanswer⟩ := s.run_typed text n
    obtain ⟨hlate, hlateAnswer⟩ := (s.typed texts n).1.run_typed text (s.typed texts n).2
    rw [hreader, hground.canvas, hground.focus, hlater, hwhat] at hlate hlateAnswer
    rw [hlater, hlate, hlateAnswer, hdirect, hanswer, hreply]
    exact ⟨rfl, halike⟩

/-- A session with a single table on the canvas. -/
def ordersShown : Session :=
  let orders := { Table.create (EntityId.minted 0) "orders" [] default with selected := ["id"] }
  ({ start default .empty with
    canvas := { Canvas.empty with root := { Block.empty with tables := [orders] } } }).showActive

/-- The beginning of a query, and one that is refused after its named query was read. -/
def halfTyped : List String :=
  ["SELECT", "WITH w AS (SELECT t.a FROM t) SELECT DISTINCT w.a FROM w"]

theorem new_ordersShown : ∀ id ∈ ordersShown.canvas.ids, ∀ k, 1 ≤ k → id ≠ EntityId.minted k := by
  have hids : ordersShown.canvas.ids = [EntityId.minted 0] := rfl
  rw [hids]
  intro id hid k hk heq
  rw [List.mem_singleton.1 hid] at heq
  have := EntityId.minted_injective heq
  omega

theorem refusesAll_halfTyped : ordersShown.RefusesAll 1 halfTyped := by
  have hfirst : ordersShown.RefusesAll 1 ["SELECT"] :=
    (refusesAll_nil ordersShown 1).push .malformed (by decide +kernel)
  exact hfirst.push (.unsupported "DISTINCT") (by decide +kernel)

/-- The named query that was read in vain used up identifiers, and that is all. -/
theorem refused_texts_leave_no_trace_halfTyped :
    (∀ id ∈ ordersShown.canvas.ids, ∀ k, 1 ≤ k → id ≠ EntityId.minted k) ∧
    ordersShown.RefusesAll 1 halfTyped ∧ 1 < (ordersShown.typed halfTyped 1).2 ∧
    (∀ before text, before ++ [text] <+: halfTyped →
      (ordersShown.typed (before ++ [text]) 1).1.canvas = ordersShown.canvas ∧
        (ordersShown.typed (before ++ [text]) 1).1.editor = text) ∧
    ∀ text,
      ((ordersShown.typed halfTyped 1).1.run (.type text) (ordersShown.typed halfTyped 1).2).1.2.1 =
        (ordersShown.run (.type text) 1).1.2.1 ∧
      Alike 1 (ordersShown.run (.type text) 1).1.1
        ((ordersShown.typed halfTyped 1).1.run (.type text)
          (ordersShown.typed halfTyped 1).2).1.1 :=
  ⟨new_ordersShown, refusesAll_halfTyped, by decide +kernel,
    refused_texts_leave_no_trace new_ordersShown refusesAll_halfTyped⟩

end Session

end QueryCanvas
