import QueryCanvas.Proofs.CarryOver.Apart
import QueryCanvas.Proofs.Reconcile.Replaced
import QueryCanvas.Proofs.Session.Changes

/-!
# Identifiers in the course of a session

Whatever is asked of a session, short of putting another canvas in place, keeps identifiers apart:
those of the tables, filters, groupings, conditions on groups, sort terms and aggregates of a block,
those of the named queries, and those of all nested queries of the canvas.  The identifiers of joins
stay apart as well, until a text is taken over that writes an equality twice that was there before.
-/

set_option autoImplicit false

namespace QueryCanvas

open Sql

namespace Reader

variable {r : Reader} {n m : Nat} {c next : Canvas} {focus : Focus} {text : String}

/-! ## Texts that are taken over -/

theorem reads_reached (r : Reader) (text : String) (n : Nat) :
    Reads n (r.canvas text) fun c n' => CanvasReached r.catalog n n' c :=
  readText_reached _ _ _ n

theorem reads_reaching (r : Reader) (c : Canvas) (focus : Focus) (text : String) (n : Nat) :
    Reads n (r.block c focus text) fun b n' =>
      Scope.Reaches { catalog := r.catalog, ctes := c.scope focus } n n' b :=
  readNestedText_reached _ _ _ n

/-- What another block in the place of a pointer brings along adds nothing. -/
theorem grows_replaceBlock (c : Canvas) (focus : Focus) (b : Block) :
    Canvas.Grows [] (c.updateBlock focus fun _ => b) (replaceBlock c focus b) := by
  unfold replaceBlock
  dsimp only
  split
  · exact Canvas.grows_refreshCteColumns _ _
  · exact Canvas.Grows.refl [] _

/-- With another block in the place of a pointer, everything has what growing keeps, if the new
block and the canvas before have it. -/
theorem everywhere_updateBlock {I : Nat → Block → Prop} (hI : Block.Stable I) (hn : n ≤ m)
    (hc : c.Everywhere (I n)) {b : Block} (hb : b.Everywhere (I m)) (focus : Focus) :
    (c.updateBlock focus fun _ => b).Everywhere (I m) :=
  hc.updateBlock (fun _ hd => hI.mono hn hd) (hI.shallow m) (fun _ _ => hb) focus

/-- Another block in the place of a pointer adds no nested queries but its own. -/
theorem nestedIds_updateBlock {old b : Block} {news : List EntityId}
    (hold : c.block? focus = some old) (h : b.nestedIds.Subperm (old.nestedIds ++ news)) :
    (c.updateBlock focus fun _ => b).nestedIds.Subperm (c.nestedIds ++ news) := by
  obtain ⟨hole, haround, rfl⟩ := Canvas.exists_around hold
  rw [haround.changed]
  exact hole.nestedIds_refill h

/-- Identifiers do not repeat in a block that is read for the block of a pointer and takes over from
it, joins apart. -/
theorem numbered_carried {old parsed : Block} {n' : Nat} {s : Scope}
    (hreached : s.Reaches n n' parsed) (hc : c.Everywhere (Block.Numbered 0 n))
    (hold : c.block? focus = some old) :
    (old.carryOver parsed).Everywhere (Block.Numbered 0 n') :=
  Block.everywhere_carryOver (fun _ hb => hb.2.1.mono (Nat.zero_le n) (Nat.le_refl n'))
    (fun _ _ hb hold => hb.1.numbered_carryOver hb.2.1 hold hreached.le) parsed old
    hreached.drawn_apart (hc.block? hold)

/-- Identifiers do not repeat on a canvas that takes over a text, joins apart. -/
theorem Takes.numbered (h : r.Takes c text n m focus next) (hc : c.Numbered n) :
    next.Numbered m := by
  cases h with
  | @root parsed n' hrun hm =>
    exact (hc.carryOver ((r.reads_reached text n).result _ _ hrun)).mono hm
  | @nested _ old parsed n' hfocus hold hrun hm =>
    have hreached := (r.reads_reaching c focus text n).result _ _ hrun
    have hn := hreached.le
    have hblocks := everywhere_updateBlock Block.stable_numbered hn hc.blocks
      (numbered_carried hreached hc.blocks hold) focus
    have hcteIds := hc.cteIds.mono (Nat.le_refl 0) hn
    rw [← Canvas.cteIds_updateBlock c focus fun _ => old.carryOver parsed] at hcteIds
    have hnestedIds := (hc.nestedIds.append hreached.fresh.nested (Nat.zero_le n) hn).subperm
      (nestedIds_updateBlock hold (Block.nestedIds_carryOver parsed old))
    exact Canvas.Numbered.grow ⟨hblocks, hcteIds, hnestedIds⟩ (grows_replaceBlock c focus _)
      Serial.nil hm

variable (r) in
/-- In the text, or in a part of it that takes over from a part of the canvas before, an equality is
written twice that was there before. -/
inductive RepeatsText (c : Canvas) (text : String) (n : Nat) : Focus → Prop
  | root {parsed : Canvas} {n' : Nat} (hrun : (r.canvas text).run n = (.ok parsed, n'))
      (h : c.Repeats parsed) : RepeatsText c text n .root
  | nested {focus : Focus} {old parsed : Block} {n' : Nat} (hfocus : focus ≠ .root)
      (hold : c.block? focus = some old) (hrun : (r.block c focus text).run n = (.ok parsed, n'))
      (h : old.Repeats parsed) : RepeatsText c text n focus

/-- Joins stay apart on a canvas that takes over a text for a nested block exactly if they are apart
in the new block. -/
theorem everywhere_joinsApart_replaceBlock_iff {old b : Block} (hn : n ≤ m)
    (hold : c.block? focus = some old) (hc : c.Everywhere (Block.Apart 0 n))
    (hnumbered : b.Everywhere (Block.Numbered 0 m))
    (hlinks : b.Everywhere fun d => ∀ t ∈ d.tables, ∀ id, t.cte = some id →
      id ∈ (c.scope focus).map (·.id)) :
    (replaceBlock c focus b).Everywhere Block.JoinsApart ↔ b.Everywhere Block.JoinsApart := by
  constructor
  · exact fun h => h.block? (block?_replaceBlock hold hlinks)
  · intro h
    have hb : b.Everywhere (Block.Apart 0 m) := fun d hd => ⟨hnumbered d hd, h d hd⟩
    have hupdated := everywhere_updateBlock Block.stable_apart hn hc hb focus
    have hreplaced := (grows_replaceBlock c focus b).blocks Block.stable_apart Serial.nil
      (Nat.le_refl m) hupdated
    exact hreplaced.imp fun d hd => hd.2

/-- Joins stay apart on a canvas that takes over a text exactly if the text writes no equality twice
that was there before. -/
theorem Takes.joinsApart_iff (h : r.Takes c text n m focus next)
    (hc : c.Everywhere (Block.Apart 0 n)) :
    next.Everywhere Block.JoinsApart ↔ ¬r.RepeatsText c text n focus := by
  cases h with
  | @root parsed n' hrun hm =>
    rw [Canvas.everywhere_joinsApart_carryOver_iff ((r.reads_reached text n).result _ _ hrun) hc]
    refine not_congr ⟨.root hrun, ?_⟩
    rintro (⟨hrun', h⟩ | hfocus)
    · cases hrun.symm.trans hrun'
      exact h
    · exact absurd rfl hfocus
  | @nested _ old parsed n' hfocus hold hrun hm =>
    have hreached := (r.reads_reaching c focus text n).result _ _ hrun
    have hnumbered := numbered_carried hreached (hc.imp fun _ hb => hb.1) hold
    rw [everywhere_joinsApart_replaceBlock_iff hreached.le hold hc hnumbered
        (Block.links_carryOver parsed old hreached.drawn),
      Block.everywhere_joinsApart_carryOver_iff parsed old hreached.drawn_apart (hc.block? hold)]
    refine not_congr ⟨.nested hfocus hold hrun, ?_⟩
    rintro (_ | ⟨_, hold', hrun', h⟩)
    · exact absurd rfl hfocus
    · cases hold.symm.trans hold'
      cases hrun.symm.trans hrun'
      exact h

end Reader

/-- Identifiers do not repeat in a collection of a block, joins apart, among the named queries, or
among all nested queries of the canvas. -/
structure Canvas.IdentifiersApart (c : Canvas) : Prop where
  tables : ∀ b ∈ c.blocks, (b.tables.map (·.id)).Nodup
  filters : ∀ b ∈ c.blocks, (b.filters.map (·.id)).Nodup
  groupBy : ∀ b ∈ c.blocks, (b.groupBy.map (·.id)).Nodup
  having : ∀ b ∈ c.blocks, (b.having.map (·.id)).Nodup
  orderBy : ∀ b ∈ c.blocks, (b.orderBy.map (·.id)).Nodup
  aggregates : ∀ b ∈ c.blocks, (b.aggregates.map (·.id)).Nodup
  ctes : (c.ctes.map (·.id)).Nodup
  nested : (c.blocks.flatMap fun b => b.subqueries.map (·.id)).Nodup

theorem Canvas.Numbered.identifiersApart {c : Canvas} {n : Nat} (h : c.Numbered n) :
    c.IdentifiersApart := by
  have hblocks := Canvas.everywhere_iff_blocks.1 h.blocks
  exact ⟨fun b hb => (hblocks b hb).tables.nodup, fun b hb => (hblocks b hb).filters.nodup,
    fun b hb => (hblocks b hb).groupBy.nodup, fun b hb => (hblocks b hb).having.nodup,
    fun b hb => (hblocks b hb).orderBy.nodup, fun b hb => (hblocks b hb).aggregates.nodup,
    h.cteIds.nodup, h.nestedIds.nodup⟩

namespace Session

variable {s : Session} {n m : Nat} {request : Request} {c : Canvas}

/-! ## Requests -/

/-- A text is put into the editor that the canvas takes over and that writes an equality twice that
was there before. -/
def RepeatsTie (s : Session) (n : Nat) : Request → Prop
  | .type text => (s.taken? n (.type text)).isSome ∧ s.reader.RepeatsText s.canvas text n s.focus
  | _ => False

theorem not_repeatsTie_of_taken? (h : s.taken? n request = none) : ¬s.RepeatsTie n request := by
  cases request with
  | type text => exact fun hrepeats => by simpa [h] using hrepeats.1
  | _ => exact id

theorem Leaves.numbered (h : s.Leaves n m request c) (hm : n ≤ m) (hs : s.canvas.Numbered n) :
    c.Numbered m := by
  cases h with
  | kept _ => exact hs.mono hm
  | edited _ hm edit =>
    exact (hs.grow (Canvas.grows_edit _ _ edit) (Serial.single n) (Nat.le_succ n)).mono hm
  | refreshed _ hm edit cte =>
    have hedited := hs.grow (Canvas.grows_edit _ _ edit) (Serial.single n) (Nat.le_succ n)
    exact hedited.grow (Canvas.grows_refreshCteColumns _ cte) Serial.nil hm
  | taken _ htakes => exact htakes.numbered hs

/-- Joins stay apart at a request exactly if it is not a text that writes an equality twice that was
there before. -/
theorem Leaves.joinsApart_iff (h : s.Leaves n m request c)
    (hs : s.canvas.Everywhere (Block.Apart 0 n)) :
    c.Everywhere Block.JoinsApart ↔ ¬s.RepeatsTie n request := by
  have hstable := Block.stable_apart
  cases h with
  | kept h => exact iff_of_true (hs.imp fun _ hb => hb.2) (not_repeatsTie_of_taken? h)
  | edited h hm edit =>
    have hedited := (Canvas.grows_edit (EntityId.minted n) s.canvas edit).blocks hstable
      (Serial.single n) (Nat.le_succ n) hs
    exact iff_of_true (hedited.imp fun _ hb => hb.2) (not_repeatsTie_of_taken? h)
  | refreshed h hm edit cte =>
    have hedited := (Canvas.grows_edit (EntityId.minted n) s.canvas edit).blocks hstable
      (Serial.single n) (Nat.le_succ n) hs
    have hrefreshed := (Canvas.grows_refreshCteColumns _ cte).blocks hstable Serial.nil
      (Nat.le_refl _) hedited
    exact iff_of_true (hrefreshed.imp fun _ hb => hb.2) (not_repeatsTie_of_taken? h)
  | taken h htakes =>
    rw [htakes.joinsApart_iff hs]
    exact not_congr ⟨fun hrepeats => ⟨by rw [h]; rfl, hrepeats⟩, fun hrepeats => hrepeats.2⟩

/-! ## Whole sessions -/

theorem numbered_runAll (settings : Settings) (catalog : Catalog) {requests : List Request}
    (hkeeps : ∀ r ∈ requests, r.KeepsCanvas) (n : Nat) :
    ((start settings catalog).runAll requests n).1.canvas.Numbered
      ((start settings catalog).runAll requests n).2 :=
  (yields_runAll Leaves.numbered requests hkeeps (start settings catalog) n
    Canvas.numbered_empty).result

/-- At one more request joins stay apart exactly if it is not a text that writes an equality twice
that was there before. -/
theorem joinsApart_push_iff {settings : Settings} {catalog : Catalog} {before : List Request}
    {request : Request}
    (hkeeps : ∀ r ∈ before ++ [request], r.KeepsCanvas)
    (hapart : ∀ b ∈ ((start settings catalog).runAll before n).1.canvas.blocks, b.JoinsApart) :
    (∀ b ∈ ((start settings catalog).runAll (before ++ [request]) n).1.canvas.blocks,
        b.JoinsApart) ↔
      ¬((start settings catalog).runAll before n).1.RepeatsTie
        ((start settings catalog).runAll before n).2 request := by
  obtain ⟨hbefore, hrequest⟩ := List.forall_mem_append.1 hkeeps
  have hnumbered := numbered_runAll settings catalog hbefore n
  have hleaves := (yields_leaves ((start settings catalog).runAll before n).1
    ((start settings catalog).runAll before n).2 request (hrequest request (by simp))).result
  have hblocks := Canvas.everywhere_iff_blocks.1 hnumbered.blocks
  rw [runAll_push, ← Canvas.everywhere_iff_blocks]
  exact hleaves.joinsApart_iff (Canvas.everywhere_iff_blocks.2 fun b hb =>
    ⟨hblocks b hb, hapart b hb⟩)

/-- Whatever was asked of a session since its start, short of putting another canvas in place:
identifiers do not repeat in a collection of a block, joins apart, nor among the named queries, nor
among all nested queries.  The identifiers of the joins of a block do not repeat at any time exactly
if no text was ever taken over that, in a part that takes over from a part of the canvas before,
writes an equality twice that this part had too. -/
theorem identifiers_apart_and_joins_iff (settings : Settings) (catalog : Catalog)
    (requests : List Request) (hkeeps : ∀ r ∈ requests, r.KeepsCanvas) (n : Nat) :
    ((start settings catalog).runAll requests n).1.canvas.IdentifiersApart ∧
      ((∀ before, before <+: requests →
          ∀ b ∈ ((start settings catalog).runAll before n).1.canvas.blocks, b.JoinsApart) ↔
        ∀ before request, before ++ [request] <+: requests →
          ¬((start settings catalog).runAll before n).1.RepeatsTie
            ((start settings catalog).runAll before n).2 request) := by
  have hkept : ∀ {before}, before <+: requests → ∀ r ∈ before, r.KeepsCanvas :=
    fun hfront r hr => hkeeps r (hfront.subset hr)
  refine ⟨(numbered_runAll settings catalog hkeeps n).identifiersApart,
    fun hapart before request hfront => ?_, fun hnever before => ?_⟩
  · have hbefore := hapart before ((List.prefix_append _ _).trans hfront)
    exact (joinsApart_push_iff (hkept hfront) hbefore).1 (hapart _ hfront)
  · induction before using List.reverseRecOn with
    | nil =>
      intro _ b hb
      rw [List.mem_singleton.1 hb]
      exact List.nodup_nil
    | append_singleton before request ih =>
      intro hfront
      have hbefore := ih ((List.prefix_append _ _).trans hfront)
      exact (joinsApart_push_iff (hkept hfront) hbefore).2 (hnever before request hfront)

/-- A join is typed, and then a text that ties its two tables twice by the same equality. -/
def tiedTwice : List Request :=
  [.type "SELECT a.x FROM a JOIN b ON a.x = b.x",
   .type "SELECT a.x FROM c, a JOIN b ON a.x = b.x AND a.x = b.x"]

theorem keepsCanvas_tiedTwice : ∀ r ∈ tiedTwice, r.KeepsCanvas := by
  simp [tiedTwice, Request.KeepsCanvas]

/-- Both joins take over the identifier of the one that was there. -/
theorem joins_share_identifier : (∀ r ∈ tiedTwice, r.KeepsCanvas) ∧
    ∃ b ∈ ((start default .empty).runAll tiedTwice 0).1.canvas.blocks, ¬b.JoinsApart := by
  refine ⟨keepsCanvas_tiedTwice, ?_⟩
  decide +kernel

/-- While the joins share an identifier, nothing else does. -/
theorem identifiers_apart_tiedTwice : (∀ r ∈ tiedTwice, r.KeepsCanvas) ∧
    ((start default .empty).runAll tiedTwice 0).1.canvas.IdentifiersApart ∧
      ((∀ before, before <+: tiedTwice →
          ∀ b ∈ ((start default .empty).runAll before 0).1.canvas.blocks, b.JoinsApart) ↔
        ∀ before request, before ++ [request] <+: tiedTwice →
          ¬((start default .empty).runAll before 0).1.RepeatsTie
            ((start default .empty).runAll before 0).2 request) :=
  ⟨keepsCanvas_tiedTwice,
    identifiers_apart_and_joins_iff default .empty tiedTwice keepsCanvas_tiedTwice 0⟩

end Session

end QueryCanvas
