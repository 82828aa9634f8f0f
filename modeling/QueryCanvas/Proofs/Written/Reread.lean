import QueryCanvas.Proofs.Written.ReadBack

/-!
# A canvas that was read back is written as it was

The named queries of a canonical canvas and its root settle one after the other, each where the
results of the named queries before it are declared.  So the text of the canvas is read, and the
canvas that is read is written as a text that is read as a canvas of the same text.
-/

set_option autoImplicit false

namespace QueryCanvas

open Sql

/-! ## Canonical canvases -/

/-- The named queries that are written. -/
def Canvas.writtenCtes (c : Canvas) : List Cte := c.ctes.filter (!·.block.hasNoSource)

/-- The root reads from something, all blocks are canonical, and the names of the named queries can
stand for themselves and are different. -/
structure Canvas.Canonical (c : Canvas) : Prop where
  source : c.root.hasNoSource = false
  root : c.root.Everywhere Block.Canonical
  ctes : ∀ q ∈ c.writtenCtes, Identifier q.name ∧ q.block.Everywhere Block.Canonical
  names : (c.writtenCtes.map (·.name)).Nodup

namespace Sql

/-- Whether the statements of the text nest too deep for the grammar. -/
def nestsTooDeep (d : Dialect) (text : String) : Bool :=
  match tokenize? d (Parameter.mask text) with
  | none => false
  | some tokens =>
    match (inside d (maxDepth - 1) false).statements tokens with
    | .error .tooDeep => true
    | _ => false

/-- What is written of the canvas that is read off the text, from the counter `n` on. -/
def rewritten? (text : String) (n : Nat) : Option String :=
  ((readText .generic .empty text).run n).1.toOption.map (render .compact)

theorem rewritten?_eq_some {text text' : String} {n : Nat} : rewritten? text n = some text' ↔
    ∃ c n', Gives (readText .generic .empty text) n c n' ∧ render .compact c = text' := by
  refine ⟨fun h => gives_of_toOption h, ?_⟩
  rintro ⟨c, n', hgives, rfl⟩
  rw [rewritten?, hgives]
  rfl

end Sql

/-- The text of the canvas is read, and what is written of the canvas that is read is read as a
canvas of the very same text. -/
def Canvas.Rereads (c : Canvas) : Prop :=
  ∀ n, ∃ c₁ n₁, Gives (readText .generic .empty (render .compact c)) n c₁ n₁ ∧
    ∀ m, ∃ c₂ m₂, Gives (readText .generic .empty (render .compact c₁)) m c₂ m₂ ∧
      render .compact c₂ = render .compact c₁

/-- Whether a canvas is written as it was read can be computed from its text. -/
theorem Canvas.rereads_iff {c : Canvas} : c.Rereads ↔
    ∀ n, ∃ text, rewritten? (render .compact c) n = some text ∧
      ∀ m, rewritten? text m = some text := by
  refine forall_congr' fun n => ⟨?_, ?_⟩
  · rintro ⟨c₁, n₁, hgives, hagain⟩
    exact ⟨_, rewritten?_eq_some.2 ⟨c₁, n₁, hgives, rfl⟩, fun m => rewritten?_eq_some.2 (hagain m)⟩
  · rintro ⟨text, hread, hagain⟩
    obtain ⟨c₁, n₁, hgives, rfl⟩ := rewritten?_eq_some.1 hread
    exact ⟨c₁, n₁, hgives, fun m => rewritten?_eq_some.1 (hagain m)⟩

namespace Sql

/-! ## Declared results of named queries -/

/-- The columns that a table of that name declares, where named queries with these results are
known. -/
def declaredBy (known : List (String × List String)) (name : String) : List String :=
  ((known.find? (Text.sameName ·.1 name)).map (·.2)).getD []

/-- The named queries have these names and results. -/
def Declares (known : List (String × List String)) (ctes : List Cte) : Prop :=
  known.Forall₂ (fun k q => q.name = k.1 ∧ q.block.outputColumns = k.2) ctes

/-- The scope in which the named queries are known. -/
def scopeOf (ctes : List Cte) : Scope := { catalog := .empty, ctes }

/-- Names and results without capitals, and no result twice. -/
structure LowerNames (known : List (String × List String)) : Prop where
  names : ∀ k ∈ known, k.1.toLower = k.1
  columns : ∀ k ∈ known, ∀ c ∈ k.2, c.toLower = c
  nodup : ∀ k ∈ known, k.2.Nodup

variable {known : List (String × List String)} {ctes : List Cte}

theorem declaredBy_of_mem {name : String} : declaredBy known name = [] ∨
    ∃ k ∈ known, declaredBy known name = k.2 := by
  unfold declaredBy
  cases hfind : known.find? (Text.sameName ·.1 name) with
  | none => exact .inl rfl
  | some k => exact .inr ⟨k, List.mem_of_find?_eq_some hfind, rfl⟩

theorem LowerNames.nodup_declaredBy (h : LowerNames known) (name : String) :
    (declaredBy known name).Nodup := by
  rcases declaredBy_of_mem with hnone | ⟨k, hk, heq⟩
  · exact hnone ▸ List.nodup_nil
  · exact heq ▸ h.nodup k hk

theorem Declares.declared (h : Declares known ctes) :
    (scopeOf ctes).declared = declaredBy known := by
  have hempty : ∀ name, Catalog.empty.columns name = [] := fun name => rfl
  funext name
  induction h with
  | nil => exact hempty name
  | @cons k q known ctes hkq _ ih =>
    unfold Scope.declared declaredBy at ih ⊢
    simp only [scopeOf, List.find?_cons, hkq.1] at ih ⊢
    cases Text.sameName k.1 name with
    | true => exact hkq.2
    | false => exact ih

theorem Declares.lower (h : Declares known ctes) (hlower : LowerNames known) :
    (scopeOf ctes).Lower := by
  refine ⟨fun q hq => ?_, fun name c hc => ?_⟩
  · obtain ⟨k, hk, hname, -⟩ := exists_of_mem_right h hq
    exact hname ▸ hlower.names k hk
  · rw [h.declared] at hc
    rcases declaredBy_of_mem with hnone | ⟨k, hk, heq⟩
    · rw [hnone] at hc
      cases hc
    · rw [heq] at hc
      exact hlower.columns k hk c hc

/-! ## Named queries settle -/

/-- What a named query is written as and settles as. -/
structure CteForm where
  name : String
  written : String
  old : SelectParts
  new : SelectParts
  text : String
  outputs : List String

/-- The named queries settle one after the other, each where those before it are known. -/
inductive CtesSettle : List (String × List String) → List Cte → List CteForm → Prop where
  | nil {known : List (String × List String)} : CtesSettle known [] []
  | cons {known : List (String × List String)} {q : Cte} {ctes : List Cte} {f : CteForm}
      {fs : List CteForm} (hname : q.name = f.name)
      (hwritten : renderBlock .compact q.block = f.written) (hplain : Identifier f.name)
      (hq : Settles (declaredBy known) q.block f.old f.new f.text f.outputs)
      (hrest : CtesSettle (known ++ [(f.name, f.outputs)]) ctes fs) :
      CtesSettle known (q :: ctes) (f :: fs)

theorem LowerNames.concat (h : LowerNames known) {name : String} {outputs : List String}
    (hname : Identifier name) (hlower : ∀ c ∈ outputs, c.toLower = c) (hnodup : outputs.Nodup) :
    LowerNames (known ++ [(name, outputs)]) := by
  refine ⟨?_, ?_, ?_⟩
  · simpa [or_imp, forall_and] using ⟨fun k l hk => h.names (k, l) hk, hname.lower⟩
  · intro k hk
    rcases List.mem_append.1 hk with hk | hk
    · exact h.columns k hk
    · exact List.mem_singleton.1 hk ▸ hlower
  · intro k hk
    rcases List.mem_append.1 hk with hk | hk
    · exact h.nodup k hk
    · exact List.mem_singleton.1 hk ▸ hnodup

theorem exists_ctesSettle (hctes : ∀ q ∈ ctes, Identifier q.name ∧
      q.block.Everywhere Block.Canonical ∧ q.block.hasNoSource = false) :
    ∀ {known}, LowerNames known → ∃ fs, CtesSettle known ctes fs := by
  induction ctes with
  | nil => exact fun _ => ⟨[], .nil⟩
  | cons q ctes ih =>
    intro known hlower
    obtain ⟨⟨hplain, hcanonical, hsource⟩, hctes⟩ := List.forall_mem_cons.1 hctes
    obtain ⟨old, new, text, outputs, hq⟩ := settles hlower.nodup_declaredBy hcanonical hsource
    obtain ⟨fs, hfs⟩ := ih hctes (hlower.concat hplain hq.lower hq.nodup)
    exact ⟨⟨q.name, _, old, new, text, outputs⟩ :: fs, .cons rfl rfl hplain hq hfs⟩

/-- The names and results after the named queries. -/
def CteForm.declared (f : CteForm) : String × List String := (f.name, f.outputs)

theorem CtesSettle.lower {fs : List CteForm} (h : CtesSettle known ctes fs)
    (hlower : LowerNames known) : LowerNames (known ++ fs.map CteForm.declared) := by
  induction h with
  | nil => rwa [List.map_nil, List.append_nil]
  | @cons known q ctes f fs _ _ hplain hq _ ih =>
    have hall := ih (hlower.concat hplain hq.lower hq.nodup)
    rwa [List.append_assoc] at hall

/-- The texts of the named queries, as they are written. -/
theorem CtesSettle.texts {fs : List CteForm} (h : CtesSettle known ctes fs) :
    (ctes.map fun q => (q.name, renderBlock .compact q.block)) =
      fs.map fun f => (f.name, f.written) := by
  induction h with
  | nil => rfl
  | cons hname hwritten _ _ _ ih => rw [List.map_cons, List.map_cons, hname, hwritten, ih]

theorem CtesSettle.forms {fs : List CteForm} (h : CtesSettle known ctes fs) :
    ∀ f ∈ fs, Identifier f.name ∧ WrittenBy f.written f.old ∧ WrittenBy f.text f.new ∧
      f.new.query.levels ≤ f.old.query.levels := by
  induction h with
  | nil => simp
  | cons _ hwritten hplain hq _ ih =>
    exact List.forall_mem_cons.2 ⟨⟨hplain, hwritten ▸ hq.writes, hq.rewrites, hq.levels⟩, ih⟩

/-! ## Reading named queries -/

/-- A named query of the settled text. -/
structure CteRead (f : CteForm) (q : Cte) : Prop where
  name : q.name = f.name
  source : q.block.hasNoSource = false
  text : renderBlock .compact q.block = f.text
  outputs : q.block.outputColumns = f.outputs

/-- The named queries can be read, be it as they are written or as they settle. -/
theorem gives_readCtes {pick : CteForm → SelectParts}
    (hpick : ∀ {δ b f}, Settles δ b f.old f.new f.text f.outputs →
      ReadsAsBlock δ (pick f) f.text f.outputs) {fs : List CteForm} (h : CtesSettle known ctes fs) :
    ∀ {before : List Cte}, Declares known before → LowerNames known →
      (known.map (·.1) ++ fs.map (·.name)).Nodup → ∀ n, ∃ read n',
        Gives (readCtes .empty before (fs.map fun f => (ctePart f.name (pick f).query).value)) n
          (before ++ read) n' ∧ fs.Forall₂ CteRead read := by
  induction h with
  | nil =>
    intro before _ _ _ n
    exact ⟨[], n, Gives.pure_iff.2 ⟨List.append_nil _, rfl⟩, .nil⟩
  | @cons known q ctes f fs _ _ hplain hq _ ih =>
    intro before hdeclares hlower hnodup n
    obtain ⟨b, n₁, hgives, hsource, htext, hout⟩ := hpick hq (scopeOf before)
      (hdeclares.lower hlower) hdeclares.declared (fun _ => rfl) n
    have hnew : before.any (Text.sameName ·.name f.name) = false := by
      rw [Bool.eq_false_iff, ne_eq, List.any_eq_true]
      rintro ⟨q', hq', hsame⟩
      obtain ⟨k, hk, hkname, -⟩ := exists_of_mem_right hdeclares hq'
      rw [hkname] at hsame
      have heq : k.1 = f.name := eq_of_sameName hsame (hlower.names k hk) hplain.lower
      exact (List.nodup_append.1 hnodup).2.2 k.1 (List.mem_map_of_mem hk) f.name (by simp) heq
    obtain ⟨cte, hcte⟩ : ∃ cte : Cte, cte =
      { id := EntityId.minted n₁, name := f.name, frame := default, block := b } := ⟨_, rfl⟩
    have hread : CteRead f cte := hcte ▸ ⟨rfl, hsource, htext, hout⟩
    obtain ⟨read, n', hrest, hall⟩ := ih
      (List.rel_append hdeclares (.cons ⟨hread.name, hread.outputs⟩ .nil))
      (hlower.concat hplain hq.lower hq.nodup)
      (by rwa [List.map_append, List.map_singleton, List.append_assoc]) (n₁ + 1)
    rw [List.append_assoc] at hrest
    refine ⟨cte :: read, n', ?_, .cons hread hall⟩
    rw [List.map_cons, ctePart, readCtes, Gives.guard_iff]
    refine ⟨by simp, Gives.guard_iff.2 ⟨Bool.eq_false_iff.1 hnew, ?_⟩⟩
    simp only [Gives.bind_iff, Gives.mint_iff]
    exact ⟨b, n₁, hgives, _, _, ⟨rfl, rfl⟩, hcte ▸ hrest⟩

/-! ## Texts of canvases -/

/-- The text of a canvas, given those of its named queries and of its root. -/
def canvasText (ctes : List (String × String)) (root : String) : String :=
  if ctes.isEmpty then root
  else "WITH " ++ commaList (ctes.map fun q => quoteName q.1 ++ " AS " ++ bracketed q.2) ++ " " ++
    root

theorem render_compact {c : Canvas} (h : c.root.hasNoSource = false) :
    render .compact c = canvasText
      (c.writtenCtes.map fun q => (q.name, renderBlock .compact q.block))
      (renderBlock .compact c.root) := by
  rw [render, if_neg (by simp [h]), canvasText, List.map_map]
  simp only [List.isEmpty_map]
  rfl

/-- The tokens of a query with named queries. -/
theorem spells_canvasText {x : SelectParts} {root : String} {pick : CteForm → SelectParts}
    {text : CteForm → String} {fs : List CteForm}
    (hfs : ∀ f ∈ fs, Identifier f.name ∧ Spells (text f) (pick f).query.tokens)
    (hroot : Spells root x.query.tokens) :
    Spells (canvasText (fs.map fun f => (f.name, text f)) root)
      (withPart x (fs.map fun f => ctePart f.name (pick f).query)).tokens := by
  cases fs with
  | nil => exact hroot
  | cons f fs =>
    have hcte : ∀ f' ∈ f :: fs, Spells (quoteName f'.name ++ " AS " ++ bracketed (text f'))
        (ctePart f'.name (pick f').query).tokens := by
      intro f' hf'
      obtain ⟨hname, htext⟩ := hfs f' hf'
      rw [quoteName_identifier hname]
      exact .tied (s := "AS") (by decide) (.name hname.plain) (.enclosed htext)
    have hlist := Spells.commaList (l := f :: fs) hcte
    have hall := Spells.behind (s := "WITH") (by decide) (hlist.spaced hroot)
    have htokens : (withPart x ((f :: fs).map fun f => ctePart f.name (pick f).query)).tokens =
        bare "WITH" :: (commaTokens ((f :: fs).map fun f =>
          (ctePart f.name (pick f).query).tokens) ++ x.query.tokens) := by
      simp [withPart, Function.comp_def]
    have hwith : "WITH " = "WITH" ++ " " := rfl
    rw [htokens, canvasText, List.map_map, if_neg (by simp), hwith]
    simpa only [Function.comp_def, String.append_assoc] using hall

/-! ## Canvases that are read back -/

/-- A text of named queries and a root is read, if it does not nest too deep. -/
theorem gives_canvasText {x : SelectParts} {root settled : String} {outputs : List String}
    {pick : CteForm → SelectParts} {text : CteForm → String} {fs : List CteForm}
    (hpick : ∀ {δ b f}, Settles δ b f.old f.new f.text f.outputs →
      ReadsAsBlock δ (pick f) f.text f.outputs) (h : CtesSettle [] ctes fs)
    (hnames : (fs.map (·.name)).Nodup)
    (hfs : ∀ f ∈ fs, Identifier f.name ∧ WrittenBy (text f) (pick f))
    (hroot : WrittenBy root x)
    (hread : ReadsAsBlock (declaredBy (fs.map CteForm.declared)) x settled outputs)
    (hlevels :
      (withPart x (fs.map fun f => ctePart f.name (pick f).query)).levels + 1 ≤ maxDepth - 1)
    (n : Nat) :
    ∃ c n',
      Gives (readText .generic .empty (canvasText (fs.map fun f => (f.name, text f)) root)) n c n' ∧
      c.root.hasNoSource = false ∧
      render .compact c = canvasText (fs.map fun f => (f.name, f.text)) settled := by
  have hlower : LowerNames [] := ⟨by simp, by simp, by simp⟩
  have hparse := parse_written (spells_canvasText
    (fun f hf => ⟨(hfs f hf).1, (hfs f hf).2.spells⟩) hroot.spells) hroot.readable hroot.source
    (fun p hp => by
      obtain ⟨f, hf, rfl⟩ := List.mem_map.1 hp
      exact isCte_ctePart (hfs f hf).1 (hfs f hf).2.isQuery)
  rw [if_pos hlevels] at hparse
  obtain ⟨read, n₁, hctes, hall⟩ := gives_readCtes hpick h .nil hlower hnames n
  have hdeclares : Declares (fs.map CteForm.declared) read := by
    rw [Declares, List.forall₂_map_left_iff]
    exact hall.imp fun f q hq => ⟨hq.name, hq.outputs⟩
  have houter : false = true → (fs.map fun f => (ctePart f.name (pick f).query).value) = [] := nofun
  obtain ⟨b, n', hgives, hsource, htext, -⟩ := hread (scopeOf read)
    (hdeclares.lower (by simpa using h.lower hlower)) hdeclares.declared houter n₁
  refine ⟨⟨read, b⟩, n', gives_readText.2 ⟨_, hparse, ?_⟩, hsource, ?_⟩
  · have hvalue : (withPart x (fs.map fun f => ctePart f.name (pick f).query)).value =
        .mk false (fs.map fun f => (ctePart f.name (pick f).query).value) x.body.value
          (orderPart x.terms).value (limitPart x.limit).value .none := by
      cases fs with
      | nil => rfl
      | cons f fs => simp [withPart, Function.comp_def]
    rw [hvalue, readCanvas]
    simp only [Bool.false_eq_true, if_false, Gives.bind_iff, Gives.pure_iff]
    exact ⟨read, n₁, hctes, b, n', hgives, rfl, rfl⟩
  · have hwritten : Canvas.writtenCtes ⟨read, b⟩ = read := List.filter_eq_self.2 fun q hq => by
      obtain ⟨f, -, hf⟩ := exists_of_mem_right hall hq
      rw [hf.source]
      rfl
    have htexts : (read.map fun q => (q.name, renderBlock .compact q.block)) =
        fs.map fun f => (f.name, f.text) :=
      map_eq_map_of_forall₂ hall fun f _ q _ hq => by rw [hq.name, hq.text]
    rw [render_compact hsource, hwritten, htexts, htext]

/-- Settled, a query with named queries needs no more levels of the grammar. -/
theorem levels_withPart {old new : SelectParts} {fs : List CteForm}
    (hroot : new.query.levels ≤ old.query.levels)
    (hfs : ∀ f ∈ fs, f.new.query.levels ≤ f.old.query.levels) :
    (withPart new (fs.map fun f => ctePart f.name f.new.query)).levels ≤
      (withPart old (fs.map fun f => ctePart f.name f.old.query)).levels := by
  have hdeepest : deepest ((fs.map fun f => ctePart f.name f.new.query).map (·.levels)) ≤
      deepest ((fs.map fun f => ctePart f.name f.old.query).map (·.levels)) := by
    refine deepest_le_iff.2 fun levels hlevels => ?_
    obtain ⟨part, hpart, rfl⟩ := List.mem_map.1 hlevels
    obtain ⟨f, hf, rfl⟩ := List.mem_map.1 hpart
    refine Nat.le_trans (Nat.add_le_add_right (hfs f hf) 1) (le_deepest ?_)
    exact List.mem_map_of_mem (List.mem_map_of_mem (f := fun f => ctePart f.name f.old.query) hf)
  cases fs with
  | nil => exact hroot
  | cons f fs => exact max_le_max hdeepest hroot

/-- A text that does not nest too deep needs no more levels than there are. -/
theorem levels_of_nestsTooDeep {x : SelectParts} {ctes : List (Part CtePart)} {text : String}
    (hspells : Spells text (withPart x ctes).tokens) (hx : x.Readable) (hfrom : x.sources ≠ [])
    (hctes : ∀ p ∈ ctes, p.IsCte) (h : nestsTooDeep .generic text = false) :
    (withPart x ctes).levels + 1 ≤ maxDepth - 1 := by
  by_contra hlevels
  have hstatements := takes_statements (n := maxDepth - 1) hx hfrom hctes
  rw [Takes, if_neg hlevels] at hstatements
  have hfault : (inside .generic (maxDepth - 1) false).statements (withPart x ctes).tokens =
      .error .tooDeep := hstatements
  rw [nestsTooDeep, Cut.tokenize?_mask hspells] at h
  simp only [hfault] at h
  cases h

/-- **Normal form: the text of a canonical canvas is read, and the canvas that is read is written as
a text that is read as a canvas of the very same text**, unless the first text nests too deep. -/
theorem rereads_of_canonical (c : Canvas) (h : c.Canonical)
    (hdeep : nestsTooDeep .generic (render .compact c) = false) : c.Rereads := by
  intro n
  have hlower : LowerNames [] := ⟨by simp, by simp, by simp⟩
  obtain ⟨fs, hfs⟩ := exists_ctesSettle (fun q hq =>
    ⟨(h.ctes q hq).1, (h.ctes q hq).2, by simpa using (List.mem_filter.1 hq).2⟩) hlower
  have hall : LowerNames (fs.map CteForm.declared) := by simpa using hfs.lower hlower
  obtain ⟨old, new, text, outputs, hroot⟩ := settles hall.nodup_declaredBy h.root h.source
  have hnames : (fs.map (·.name)).Nodup := by
    have hsame := congrArg (List.map Prod.fst) hfs.texts
    rw [List.map_map, List.map_map] at hsame
    exact hsame ▸ h.names
  have hforms := hfs.forms
  have htext : render .compact c = canvasText (fs.map fun f => (f.name, f.written))
      (renderBlock .compact c.root) := by
    rw [render_compact h.source, hfs.texts]
  rw [htext] at hdeep ⊢
  have hlevels := levels_of_nestsTooDeep (spells_canvasText
    (fun f hf => ⟨(hforms f hf).1, (hforms f hf).2.1.spells⟩)
      hroot.writes.spells) hroot.writes.readable hroot.writes.source (fun p hp => by
        obtain ⟨f, hf, rfl⟩ := List.mem_map.1 hp
        exact isCte_ctePart (hforms f hf).1 (hforms f hf).2.1.isQuery) hdeep
  have hfewer := levels_withPart hroot.levels fun f hf => (hforms f hf).2.2.2
  obtain ⟨c₁, n₁, hgives, -, hrender⟩ := gives_canvasText
    (fun hq => hq.reads) hfs hnames (fun f hf => ⟨(hforms f hf).1, (hforms f hf).2.1⟩) hroot.writes
    hroot.reads hlevels n
  refine ⟨c₁, n₁, hgives, fun m => ?_⟩
  obtain ⟨c₂, m₂, hgives, -, hagain⟩ := gives_canvasText
    (fun hq => hq.rereads) hfs hnames (fun f hf => ⟨(hforms f hf).1, (hforms f hf).2.2.1⟩)
    hroot.rewrites hroot.rereads (by omega) m
  rw [hrender]
  exact ⟨c₂, m₂, hgives, hagain⟩

/-! ## Canvases with and without a normal form -/

/-- A table box of that name, with chosen columns. -/
def boxed (i : Nat) (name : String) (selected : List String) : Table :=
  { id := EntityId.minted i, name, position := default, columns := [], selected
    aggregates := .empty, cte := none }

/-- A block in which tables are drawn and nothing else. -/
def blockOf (tables : List Table) : Block := { Block.empty with tables }

/-- A named query `q` of `a`, joined with `b` where a list holds the column of `b`. -/
def joinedCanvas : Canvas :=
  { ctes := [⟨EntityId.minted 0, "q", default, blockOf [boxed 1 "a" ["x"]]⟩]
    root := { blockOf [boxed 2 "q" ["x"], boxed 3 "b" []] with
      joins := [⟨EntityId.minted 4, EntityId.minted 3, "y", EntityId.minted 2, "x", .left⟩]
      filters := [⟨EntityId.minted 5, "b.y", .isIn, .value "1, 'it''s', {{k}}", .and⟩]
      limit := some (.count 9) } }

theorem canonical_boxed {i : Nat} {name : String} {selected : List String} (hname : Identifier name)
    (hselected : ∀ c ∈ selected, Identifier c) : (boxed i name selected).Canonical :=
  ⟨hname, fun c hc => ⟨hselected c hc, fun _ h => by
    simp [boxed, NameMap.find?, NameMap.empty] at h⟩⟩

theorem canonical_blockOf {tables : List Table} (hids : (tables.map (·.id)).Nodup)
    (hnames : (tables.map (·.name)).Nodup) (htables : ∀ t ∈ tables, t.Canonical) :
    (blockOf tables).Canonical := by
  constructor
  case tables => exact htables
  all_goals simp [blockOf, Block.empty, hids, hnames]

theorem canonical_joinedCanvas : joinedCanvas.Canonical := by
  have ha : (boxed 1 "a" ["x"]).Canonical := canonical_boxed (by decide +kernel) (by decide +kernel)
  have hq : (boxed 2 "q" ["x"]).Canonical := canonical_boxed (by decide +kernel) (by decide +kernel)
  have hb : (boxed 3 "b" []).Canonical := canonical_boxed (by decide +kernel) nofun
  have hnamed : (blockOf [boxed 1 "a" ["x"]]).Canonical :=
    canonical_blockOf (by decide) (by decide) (by simp [ha])
  have hvalues : ∀ v ∈ ["1", "'it''s'", "{{k}}"], PlainValue v := by
    simp only [List.forall_mem_cons]
    refine ⟨.inr (.inl (by decide +kernel)), .inr (.inr ⟨"it's", ?_, by decide +kernel⟩),
      .inl (by decide +kernel), nofun⟩
    exact ⟨by decide +kernel, by decide +kernel, by decide +kernel⟩
  have hroot : joinedCanvas.root.Canonical := by
    refine {
      ids := by decide +kernel
      names := by decide +kernel
      tables := ?tables
      joins := ?joins
      filters := ?filters
      groupBy := List.forall_mem_nil _
      having := List.forall_mem_nil _
      orderBy := List.forall_mem_nil _
      limit := ?limit
      aggregates := List.forall_mem_nil _
      subqueries := List.forall_mem_nil _ }
    case tables => simp [joinedCanvas, blockOf, hq, hb]
    case joins =>
      refine List.forall_mem_singleton.2 ⟨⟨boxed 3 "b" [], boxed 2 "q" ["x"], ?_⟩, ?_, ?_⟩
      · exact ⟨by decide +kernel, by decide +kernel, by decide +kernel⟩
      · decide +kernel
      · decide +kernel
    case filters =>
      refine List.forall_mem_singleton.2 ⟨⟨boxed 3 "b" [], ?_, "y", ?_, ?_⟩, nofun, ?_, nofun⟩
      · exact List.mem_cons_of_mem _ List.mem_cons_self
      · decide +kernel
      · decide +kernel
      · exact fun _ _ => ⟨_, List.cons_ne_nil _ _, hvalues, by decide +kernel⟩
    case limit =>
      rintro _ ⟨⟩
      exact (by decide : 9 < UInt64.size)
  refine {
    source := by decide +kernel
    root := Block.everywhere_iff.2 ⟨hroot, List.forall_mem_nil _⟩
    ctes := fun q hq => ?_
    names := by decide +kernel }
  have hmem := List.mem_of_mem_filter hq
  obtain rfl := List.mem_singleton.1 hmem
  exact ⟨by decide +kernel, Block.everywhere_iff.2 ⟨hnamed, List.forall_mem_nil _⟩⟩

theorem rereads_joinedCanvas : joinedCanvas.Rereads :=
  rereads_of_canonical joinedCanvas canonical_joinedCanvas (by decide +kernel)

/-- A canvas of which only the root is drawn. -/
def rootOf (root : Block) : Canvas := { ctes := [], root }

/-- A block with one table, of which one column is chosen. -/
def columnBlock : Block := blockOf [boxed 0 "a" ["x"]]

/-- A canvas whose text cannot be read has no normal form. -/
theorem not_rereads_of_unread {c : Canvas} (h : rewritten? (render .compact c) 0 = none) :
    ¬c.Rereads := by
  intro hc
  obtain ⟨text, hread, -⟩ := Canvas.rereads_iff.1 hc 0
  rw [h] at hread
  cases hread

/-- What a canonical canvas is asked for cannot be spared.  The text of a root without a source is a
comment; tables of one id are not all written; of two named queries of one name the second is not
read; a condition on groups needs a value, and a limit a number or a parameter; no pattern is
compared with a nested query; and every reading halves the quotes of a word in a list. -/
theorem not_rereads_uncanonical :
    (Canvas.empty.root.Everywhere Block.Canonical ∧ ¬Canvas.empty.Rereads) ∧
    ¬(rootOf (blockOf [boxed 0 "a" ["x"], boxed 0 "b" ["y"]])).Rereads ∧
    ¬(Canvas.mk [⟨EntityId.minted 1, "q", default, columnBlock⟩,
        ⟨EntityId.minted 2, "q", default, columnBlock⟩] columnBlock).Rereads ∧
    ¬(rootOf { columnBlock with
        having := [⟨EntityId.minted 1, .count, "*", .gt, "", .and⟩] }).Rereads ∧
    ¬(rootOf { columnBlock with limit := some (.parameter "n") }).Rereads ∧
    ¬(rootOf { columnBlock with
        filters := [⟨EntityId.minted 1, "a.x", .like, .subquery (EntityId.minted 2), .and⟩]
        subqueries := [⟨EntityId.minted 2, .whereClause, none, some (EntityId.minted 1), default,
          columnBlock⟩] }).Rereads ∧
    ¬(rootOf { columnBlock with
        filters := [⟨EntityId.minted 1, "a.x", .isIn, .value "''''''''''", .and⟩] }).Rereads := by
  have hempty : (blockOf []).Canonical :=
    canonical_blockOf List.nodup_nil List.nodup_nil (List.forall_mem_nil _)
  refine ⟨⟨Block.everywhere_iff.2 ⟨hempty, List.forall_mem_nil _⟩,
      not_rereads_of_unread (by decide +kernel)⟩, not_rereads_of_unread (by decide +kernel),
    not_rereads_of_unread (by decide +kernel), not_rereads_of_unread (by decide +kernel),
    not_rereads_of_unread (by decide +kernel), not_rereads_of_unread (by decide +kernel), ?_⟩
  intro hquotes
  obtain ⟨text, hread, hagain⟩ := Canvas.rereads_iff.1 hquotes 0
  have hhalved : rewritten? (render .compact (rootOf { columnBlock with
      filters := [⟨EntityId.minted 1, "a.x", .isIn, .value "''''''''''", .and⟩] })) 0 =
        some "SELECT a.x FROM a WHERE a.x IN ('''''')" := by decide +kernel
  obtain rfl : text = _ := Option.some.inj (hread.symm.trans hhalved)
  exact absurd (hagain 0) (by decide +kernel)

end Sql

end QueryCanvas
