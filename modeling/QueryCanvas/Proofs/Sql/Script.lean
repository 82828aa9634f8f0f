import QueryCanvas.Proofs.Canvas.Tree
import QueryCanvas.Proofs.Sql.WholeLines
import QueryCanvas.Sql.Render

/-!
# The lines of a written query

A query is written as characters with places between them at which the layouts differ: between two
clauses or conditions, and inside the parentheses of a nested query.  Here the queries of blocks and
canvases are given with these places.  What relates the texts of their parts in two layouts to these
places, and is kept by putting parts together, relates the texts of whole queries to them.  If the
lines between the places are whole, both forms of a query are cut into the same pieces.
-/

set_option autoImplicit false

namespace QueryCanvas.Sql

open Lexer (Stops stops_cons stops_nil isStop)

/-! ## Characters and places between them -/

/-- A character of a query, or a place where the layouts differ. -/
inductive Glyph where
  | char (c : Char)
  /-- Between two clauses or conditions. -/
  | gap
  /-- The opening parenthesis of a nested query, with what follows it up to the query. -/
  | opening
  /-- The closing parenthesis of a nested query, with what stands between the query and it. -/
  | closing
deriving DecidableEq, Repr

/-- A query with the places where the layouts differ. -/
abbrev Script := List Glyph

/-- A wide and a compact form of a query.  The wide form may indent its lines. -/
inductive Laid : Script → List Char → List Char → Prop
  | nil : Laid [] [] []
  | char {g : Script} {w k : List Char} (c : Char) :
    Laid g w k → Laid (.char c :: g) (c :: w) (c :: k)
  | gap {g : Script} {w k : List Char} (n : Nat) :
    Laid g w k → Laid (.gap :: g) ('\n' :: (List.replicate n ' ' ++ w)) (' ' :: k)
  | opening {g : Script} {w k : List Char} (n : Nat) :
    Laid g w k → Laid (.opening :: g) ('(' :: '\n' :: (List.replicate n ' ' ++ w)) ('(' :: k)
  | closing {g : Script} {w k : List Char} (n : Nat) :
    Laid g w k → Laid (.closing :: g) ('\n' :: (List.replicate n ' ' ++ ')' :: w)) (')' :: k)

/-- The lines of a query: what stands between the places where the layouts differ. -/
def Script.lines : Script → List (List Char)
  | [] => [[]]
  | .char c :: g =>
    match Script.lines g with
    | line :: rest => (c :: line) :: rest
    | [] => [[c]]
  | _ :: g => [] :: Script.lines g

theorem Script.lines_ne_nil (g : Script) : g.lines ≠ [] := by
  fun_induction Script.lines g <;> simp_all

theorem ReadsAs.spaces (n : Nat) {r : List Char} {ts : Option (List Token)} (h : ReadsAs r ts) :
    ReadsAs (List.replicate n ' ' ++ r) ts := by
  induction n with
  | zero => exact h
  | succ n ih => exact ih.blank (.inr rfl)

/-- Two layouts of a query whose lines are whole are cut into the same pieces. -/
theorem Laid.readsAs {g : Script} {w k : List Char} (h : Laid g w k) (before : List Char)
    {line : List Char} {rest : List (List Char)} (hlines : g.lines = line :: rest)
    (hline : IsWhole (before ++ line)) (hrest : ∀ l ∈ rest, IsWhole l) :
    ∃ ts, ReadsAs (before ++ w) ts ∧ ReadsAs (before ++ k) ts := by
  induction h generalizing before line rest with
  | nil =>
    obtain ⟨rfl, rfl⟩ := List.cons.inj hlines
    obtain ⟨ts, hts⟩ := hline.readsAs
    have := hts [] _ stops_nil ReadsAs.nil
    rw [List.append_nil] at this
    exact ⟨_, this, this⟩
  | @char g w k c _ ih =>
    cases hg : g.lines with
    | nil => exact absurd hg g.lines_ne_nil
    | cons l ls =>
      rw [Script.lines, hg] at hlines
      obtain ⟨rfl, rfl⟩ := List.cons.inj hlines
      have := ih (before ++ [c]) hg (by simpa using hline) hrest
      simpa using this
  | @gap g w k n _ ih =>
    obtain ⟨rfl, rfl⟩ := List.cons.inj hlines
    obtain ⟨line, rest, hg⟩ := List.exists_cons_of_ne_nil g.lines_ne_nil
    obtain ⟨ts, hw, hk⟩ := ih [] hg (hrest _ (by simp [hg]))
      fun l hl => hrest l (by simp [hg, hl])
    rw [List.append_nil] at hline
    obtain ⟨ts', hts'⟩ := hline.readsAs
    exact ⟨_, hts' _ _ (stops_cons.2 rfl) ((hw.spaces n).blank (.inl rfl)),
      hts' _ _ (stops_cons.2 rfl) (hk.blank (.inr rfl))⟩
  | @opening g w k n _ ih =>
    obtain ⟨rfl, rfl⟩ := List.cons.inj hlines
    obtain ⟨line, rest, hg⟩ := List.exists_cons_of_ne_nil g.lines_ne_nil
    obtain ⟨ts, hw, hk⟩ := ih [] hg (hrest _ (by simp [hg]))
      fun l hl => hrest l (by simp [hg, hl])
    rw [List.append_nil] at hline
    obtain ⟨ts', hts'⟩ := hline.readsAs
    exact ⟨_, hts' _ _ (stops_cons.2 rfl) (((hw.spaces n).blank (.inl rfl)).parenthesis (.inl rfl)),
      hts' _ _ (stops_cons.2 rfl) (hk.parenthesis (.inl rfl))⟩
  | @closing g w k n _ ih =>
    obtain ⟨rfl, rfl⟩ := List.cons.inj hlines
    obtain ⟨line, rest, hg⟩ := List.exists_cons_of_ne_nil g.lines_ne_nil
    obtain ⟨ts, hw, hk⟩ := ih [] hg (hrest _ (by simp [hg]))
      fun l hl => hrest l (by simp [hg, hl])
    rw [List.append_nil] at hline
    obtain ⟨ts', hts'⟩ := hline.readsAs
    exact ⟨_, hts' _ _ (stops_cons.2 rfl)
        (((hw.parenthesis (.inr rfl)).spaces n).blank (.inl rfl)),
      hts' _ _ (stops_cons.2 rfl) (hk.parenthesis (.inr rfl))⟩

/-! ## Composition -/

theorem Laid.append {g g' : Script} {w w' k k' : List Char} (h : Laid g w k) (h' : Laid g' w' k') :
    Laid (g ++ g') (w ++ w') (k ++ k') := by
  induction h with
  | nil => exact h'
  | char c _ ih => exact ih.char c
  | gap n _ ih => simpa using ih.gap n
  | opening n _ ih => simpa using ih.opening n
  | closing n _ ih => simpa using ih.closing n

/-- A text without such places. -/
def Script.text (s : String) : Script := s.toList.map .char

theorem Laid.text (s : String) : Laid (.text s) s.toList s.toList := by
  rw [Script.text]
  induction s.toList with
  | nil => exact .nil
  | cons c cs ih => exact ih.char c

/-! ## The places in the query of a block -/

namespace Script

/-- Parts with commas between them. -/
def commas (items : List Script) : Script := (text ", ").intercalate items

def aliased (expression : Script) (aliasName : Option String) : Script :=
  match aliasName with
  | some name => expression ++ text (" AS " ++ quoteName name)
  | none => expression

/-- A nested query in its parentheses. -/
def nest (body : Script) : Script := .opening :: (body ++ [.closing])

def fromItem (b : Block) (item : FromItem) : Script :=
  text (quotePath item.base.name) ++ (item.steps.map fun s => .gap :: text (joinStep b s)).flatten

def nestedItems (nested : List (SubqueryOf Script)) (role : SubqueryRole) : List Script :=
  (nested.filter (·.role = role)).map fun s => aliased s.block s.aliasName

def selectList (b : Block) (nested : List (SubqueryOf Script)) : Script :=
  let items := (b.tables.flatMap chosenColumns
    ++ b.aggregates.map fun a => Sql.aliased (call a.function a.expression) a.aliasName).map text
    ++ nestedItems nested .selectList
  if items.isEmpty then text noColumns else commas items

def fromClause (b : Block) (nested : List (SubqueryOf Script)) : Script :=
  commas ((fromItems b).map (fromItem b) ++ nestedItems nested .fromClause)

def filterText (nested : List (SubqueryOf Script)) (f : Filter) : Script :=
  let linked := if f.operator.isUnary then none
    else f.operand.subquery?.bind fun id => nested.find? (·.id = id)
  match linked with
  | some s => text (f.column ++ " " ++ f.operator.sql ++ " ") ++ s.block
  | none => text (Sql.filterText [] f)

def chain : List (Script × Connector) → Script
  | [] => []
  | [(condition, _)] => condition
  | (condition, connector) :: rest =>
    condition ++ .gap :: (text (connector.sql ++ " ") ++ chain rest)

def clause (keyword : String) {α : Type} (items : List α) (body : List α → Script) : List Script :=
  if items.isEmpty then [] else [text (keyword ++ " ") ++ body items]

/-- The query of a block, given those of its nested queries. -/
def block (b : Block) (nested : List (SubqueryOf Script)) : Script :=
  if b.hasNoSource then text noTables
  else
    [Glyph.gap].intercalate <|
      [text "SELECT " ++ selectList b nested, text "FROM " ++ fromClause b nested]
        ++ clause "WHERE" b.filters
            (fun fs => chain (fs.map fun f => (filterText nested f, f.connector)))
        ++ clause "GROUP BY" b.groupBy (fun gs => text (commaList (gs.map (·.column))))
        ++ clause "HAVING" b.having
            (fun hs => chain (hs.map fun h => (text (havingText h), h.connector)))
        ++ clause "ORDER BY" b.orderBy
            (fun os => text (commaList (os.map fun o => o.column ++ " " ++ o.direction.sql)))
        ++ clause "LIMIT" b.limit.toList (fun ls => text (String.join (ls.map (·.sql))))

mutual

/-- The query of a block. -/
def ofBlock : Block → Script
  | ⟨t, j, f, g, h, o, n, a, subs⟩ => block ⟨t, j, f, g, h, o, n, a, subs⟩ (ofNested subs)

/-- Nested queries, in parentheses, in place of their blocks. -/
def ofNested : List (SubqueryOf Block) → List (SubqueryOf Script)
  | [] => []
  | ⟨i, r, a, k, f, b⟩ :: rest =>
    ⟨i, r, a, k, f, nest (if b.hasNoSource then text emptyNested else ofBlock b)⟩ :: ofNested rest

end

/-- The query of a canvas. -/
def ofCanvas (c : Canvas) : Script :=
  if c.root.hasNoSource then text noTables
  else
    let ctes := (c.ctes.filter (!·.block.hasNoSource)).map fun q =>
      text (quoteName q.name ++ " AS ") ++ nest (ofBlock q.block)
    if ctes.isEmpty then ofBlock c.root
    else text "WITH " ++ (text "," ++ [Glyph.gap]).intercalate ctes ++ [.gap] ++ ofBlock c.root

end Script

/-! ## Two layouts of a query -/

/-- A relation of a part of a query to its texts in two layouts, kept by putting parts together. -/
structure Composes (l l' : Layout) (R : Script → String → String → Prop) : Prop where
  text (s : String) : R (.text s) s s
  append {g g' : Script} {w w' k k' : String} :
    R g w k → R g' w' k' → R (g ++ g') (w ++ w') (k ++ k')
  clauseGap : R [.gap] l.clauseBreak l'.clauseBreak
  innerGap : R [.gap] l.innerBreak l'.innerBreak
  cteGap : R (Script.text "," ++ [.gap]) l.cteBreak l'.cteBreak

section Composes

variable {l l' : Layout} {R : Script → String → String → Prop} {g g' : Script} {w w' k k' : String}

/-- Parts of a query in their two forms. -/
inductive EachForm (R : Script → String → String → Prop) :
    List Script → List String → List String → Prop
  | nil : EachForm R [] [] []
  | cons {g : Script} {w k : String} {gs : List Script} {ws ks : List String} :
    R g w k → EachForm R gs ws ks → EachForm R (g :: gs) (w :: ws) (k :: ks)

variable {gs gs' : List Script} {ws ws' ks ks' : List String}

theorem EachForm.append (h : EachForm R gs ws ks) (h' : EachForm R gs' ws' ks') :
    EachForm R (gs ++ gs') (ws ++ ws') (ks ++ ks') := by
  induction h with
  | nil => exact h'
  | cons hfirst _ ih => exact .cons hfirst ih

theorem eachForm_map {α : Type} {G : α → Script} {W K : α → String} (xs : List α)
    (h : ∀ x ∈ xs, R (G x) (W x) (K x)) : EachForm R (xs.map G) (xs.map W) (xs.map K) := by
  induction xs with
  | nil => exact .nil
  | cons x xs ih => exact .cons (h x (by simp)) (ih fun y hy => h y (by simp [hy]))

theorem EachForm.isEmpty (h : EachForm R gs ws ks) :
    ws.isEmpty = gs.isEmpty ∧ ks.isEmpty = gs.isEmpty := by
  cases h <;> exact ⟨rfl, rfl⟩

/-- Nested queries in their two forms. -/
inductive NestedForms (R : Script → String → String → Prop) :
    List (SubqueryOf Script) → List (SubqueryOf String) → List (SubqueryOf String) → Prop
  | nil : NestedForms R [] [] []
  | cons {ns : List (SubqueryOf Script)} {nw nk : List (SubqueryOf String)} (s : SubqueryOf Unit)
    {g : Script} {w k : String} : R g w k → NestedForms R ns nw nk →
      NestedForms R ({ s with block := g } :: ns) ({ s with block := w } :: nw)
        ({ s with block := k } :: nk)

variable {ns : List (SubqueryOf Script)} {nw nk : List (SubqueryOf String)}

theorem NestedForms.find (h : NestedForms R ns nw nk) (id : EntityId) :
    (ns.find? (·.id = id) = none ∧ nw.find? (·.id = id) = none ∧ nk.find? (·.id = id) = none) ∨
      ∃ s sw sk, ns.find? (·.id = id) = some s ∧ nw.find? (·.id = id) = some sw ∧
        nk.find? (·.id = id) = some sk ∧ R s.block sw.block sk.block := by
  induction h with
  | nil => exact .inl ⟨rfl, rfl, rfl⟩
  | cons s hfirst _ ih =>
    by_cases hs : s.id = id
    · exact .inr ⟨_, _, _, List.find?_cons_of_pos (by simpa using hs),
        List.find?_cons_of_pos (by simpa using hs), List.find?_cons_of_pos (by simpa using hs),
        hfirst⟩
    · simpa [hs] using ih

namespace Composes

theorem intercalate (hR : Composes l l' R) {sep : Script} {sepW sepK : String}
    (hsep : R sep sepW sepK) (h : EachForm R gs ws ks) :
    R (sep.intercalate gs) (sepW.intercalate ws) (sepK.intercalate ks) := by
  induction h with
  | nil => exact hR.text ""
  | @cons g w k gs ws ks hfirst hrest ih =>
    cases hrest with
    | nil => simpa [List.intercalate] using hfirst
    | cons hnext hrest =>
      rw [List.intercalate_cons_cons, String.intercalate_cons_cons, String.intercalate_cons_cons]
      exact hR.append (hR.append hfirst hsep) ih

theorem join (hR : Composes l l' R) (h : EachForm R gs ws ks) :
    R gs.flatten (String.join ws) (String.join ks) := by
  induction h with
  | nil => exact hR.text ""
  | cons hfirst _ ih =>
    rw [List.flatten_cons, String.join_cons, String.join_cons]
    exact hR.append hfirst ih

theorem aliased (hR : Composes l l' R) (h : R g w k) (aliasName : Option String) :
    R (Script.aliased g aliasName) (Sql.aliased w aliasName) (Sql.aliased k aliasName) := by
  cases aliasName with
  | none => exact h
  | some name =>
    simp only [Script.aliased, Sql.aliased, String.append_assoc]
    exact hR.append h (hR.text _)

theorem commas (hR : Composes l l' R) (h : EachForm R gs ws ks) :
    R (Script.commas gs) (commaList ws) (commaList ks) :=
  hR.intercalate (hR.text ", ") h

theorem fromItem (hR : Composes l l' R) (b : Block) (item : FromItem) :
    R (Script.fromItem b item) (Sql.fromItem l b item) (Sql.fromItem l' b item) := by
  refine hR.append (hR.text _) (hR.join (eachForm_map item.steps fun s _ => ?_))
  exact hR.append hR.innerGap (hR.text _)

theorem nestedItems (hR : Composes l l' R) (h : NestedForms R ns nw nk) (role : SubqueryRole) :
    EachForm R (Script.nestedItems ns role) (Sql.nestedItems nw role)
      (Sql.nestedItems nk role) := by
  induction h with
  | nil => exact .nil
  | cons s hfirst _ ih =>
    by_cases hs : s.role = role
    · simp only [Script.nestedItems, Sql.nestedItems, List.filter_cons, hs, decide_true, if_true,
        List.map_cons]
      exact .cons (hR.aliased hfirst _) ih
    · simp only [Script.nestedItems, Sql.nestedItems, List.filter_cons, hs, decide_false]
      exact ih

theorem selectList (hR : Composes l l' R) (h : NestedForms R ns nw nk) (b : Block) :
    R (Script.selectList b ns) (Sql.selectList b nw) (Sql.selectList b nk) := by
  have hitems := (eachForm_map (R := R) (G := Script.text) (W := id) (K := id)
    (b.tables.flatMap chosenColumns
      ++ b.aggregates.map fun a => Sql.aliased (call a.function a.expression) a.aliasName)
    fun s _ => hR.text s).append (hR.nestedItems h .selectList)
  simp only [List.map_id_fun, id_eq] at hitems
  simp only [Script.selectList, Sql.selectList, hitems.isEmpty]
  split
  · exact hR.text _
  · exact hR.commas hitems

theorem fromClause (hR : Composes l l' R) (h : NestedForms R ns nw nk) (b : Block) :
    R (Script.fromClause b ns) (Sql.fromClause l b nw) (Sql.fromClause l' b nk) :=
  hR.commas ((eachForm_map (fromItems b) fun item _ => hR.fromItem b item).append
    (hR.nestedItems h .fromClause))

theorem filterText (hR : Composes l l' R) (h : NestedForms R ns nw nk) (f : Filter) :
    R (Script.filterText ns f) (Sql.filterText nw f) (Sql.filterText nk f) := by
  unfold Script.filterText
  by_cases hunary : f.operator.isUnary
  · simp only [hunary, if_true, Sql.filterText]
    exact hR.text _
  · cases hoperand : f.operand.subquery? with
    | none =>
      simp only [hunary, Sql.filterText, hoperand, Option.bind_none]
      exact hR.text _
    | some id =>
      obtain ⟨hs, hw, hk⟩ | ⟨s, sw, sk, hs, hw, hk, hforms⟩ := h.find id
      · simp only [hunary, Sql.filterText, hoperand, Option.bind_some, hs, hw, hk,
          List.find?_nil]
        exact hR.text _
      · simp only [hunary, Sql.filterText, hoperand, Option.bind_some, hs, hw, hk]
        exact hR.append (hR.text _) hforms

theorem chain (hR : Composes l l' R) {α : Type} {G : α → Script} {W K : α → String}
    {C : α → Connector} (xs : List α) (h : ∀ x ∈ xs, R (G x) (W x) (K x)) :
    R (Script.chain (xs.map fun x => (G x, C x))) (Sql.chain l (xs.map fun x => (W x, C x)))
      (Sql.chain l' (xs.map fun x => (K x, C x))) := by
  induction xs with
  | nil => exact hR.text ""
  | cons x xs ih =>
    have hfirst := h x (by simp)
    have hrest := ih fun y hy => h y (by simp [hy])
    cases xs with
    | nil => exact hfirst
    | cons y ys =>
      simp only [List.map_cons, Script.chain, Sql.chain, String.append_assoc] at hrest ⊢
      have := hR.append (hR.append hR.innerGap (hR.text ((C x).sql ++ " "))) hrest
      simp only [String.append_assoc] at this
      exact hR.append hfirst this

theorem clause (hR : Composes l l' R) (keyword : String) {α : Type} (items : List α)
    {G : List α → Script} {W K : List α → String} (h : R (G items) (W items) (K items)) :
    EachForm R (Script.clause keyword items G) (Sql.clause keyword items W)
      (Sql.clause keyword items K) := by
  unfold Script.clause Sql.clause
  split
  · exact .nil
  · refine .cons ?_ .nil
    exact hR.append (hR.text _) h

theorem block (hR : Composes l l' R) (h : NestedForms R ns nw nk) (b : Block) :
    R (Script.block b ns) (blockText l b nw) (blockText l' b nk) := by
  unfold Script.block blockText
  split
  · exact hR.text _
  · refine hR.intercalate hR.clauseGap ?_
    refine .append (.append (.append (.append (.append ?_ ?_) ?_) ?_) ?_) ?_
    · exact .cons (hR.append (hR.text "SELECT ") (hR.selectList h b))
        (.cons (hR.append (hR.text "FROM ") (hR.fromClause h b)) .nil)
    · exact hR.clause _ _ (hR.chain _ fun f _ => hR.filterText h f)
    · exact hR.clause _ _ (hR.text _)
    · exact hR.clause _ _ (hR.chain _ fun f _ => hR.text _)
    · exact hR.clause _ _ (hR.text _)
    · exact hR.clause _ _ (hR.text _)

/-- The relation of the query of a block to its texts, from those of its nested queries. -/
theorem ofBlock (hR : Composes l l' R)
    (hempty : R (Script.text emptyNested).nest (l.nest emptyNested) (l'.nest emptyNested))
    {b : Block} (h : ∀ s ∈ b.subqueries, R (Script.ofBlock s.block).nest
      (l.nest (renderBlock l s.block)) (l'.nest (renderBlock l' s.block))) :
    R (Script.ofBlock b) (renderBlock l b) (renderBlock l' b) := by
  have hnested : ∀ subs : List Subquery,
      (∀ s ∈ subs, R (Script.ofBlock s.block).nest
        (l.nest (renderBlock l s.block)) (l'.nest (renderBlock l' s.block))) →
      NestedForms R (Script.ofNested subs) (renderNested l subs) (renderNested l' subs) := by
    intro subs hsubs
    induction subs with
    | nil => exact .nil
    | cons s subs ih =>
      refine .cons s.shell ?_ (ih fun x hx => hsubs x (by simp [hx]))
      split
      · exact hempty
      · exact hsubs s (by simp)
  cases b
  exact hR.block (hnested _ h) _

/-- The relation of the query of a canvas to its texts, from those of its blocks. -/
theorem ofCanvas (hR : Composes l l' R) {c : Canvas}
    (hctes : ∀ q ∈ c.ctes, R (Script.ofBlock q.block).nest (l.nest (renderBlock l q.block))
      (l'.nest (renderBlock l' q.block)))
    (hroot : R (Script.ofBlock c.root) (renderBlock l c.root) (renderBlock l' c.root)) :
    R (Script.ofCanvas c) (render l c) (render l' c) := by
  have hnamed := eachForm_map (c.ctes.filter (!·.block.hasNoSource)) fun q hq =>
    hR.append (hR.text (quoteName q.name ++ " AS ")) (hctes q (List.mem_filter.1 hq).1)
  unfold Script.ofCanvas render
  split
  · exact hR.text _
  · simp only [hnamed.isEmpty]
    split
    · exact hroot
    · exact hR.append (hR.append (hR.append (hR.text "WITH ") (hR.intercalate hR.cteGap hnamed))
        hR.clauseGap) hroot

end Composes

end Composes

/-! ## The wide and the compact form -/

/-- The layout with one clause a line and this many blanks for each level. -/
def Layout.wide (n : Nat) : Layout := { pretty := true, indent := n }

/-- The two forms of a part of a query, provided that the characters of the compact form are of the
class `q`. -/
def Fits (q : Char → Prop) (g : Script) (w k : String) : Prop :=
  (∀ c ∈ k.toList, q c) → Laid g w.toList k.toList

theorem composes_fits (q : Char → Prop) (n : Nat) : Composes (.wide n) .compact (Fits q) where
  text s := fun _ => .text s
  append := by
    intro g g' w w' k k' h h' hq
    simp only [String.toList_append, List.mem_append] at hq ⊢
    exact (h fun c hc => hq c (.inl hc)).append (h' fun c hc => hq c (.inr hc))
  clauseGap := by
    intro _
    have hw : (Layout.wide n).clauseBreak.toList = ['\n'] := by
      simp [Layout.clauseBreak, Layout.wide]
    rw [hw]
    exact Laid.nil.gap 0
  innerGap := by
    intro _
    have hw : (Layout.wide n).innerBreak.toList = '\n' :: (List.replicate n ' ' ++ []) := by
      simp [Layout.innerBreak, Layout.wide, Layout.pad]
    rw [hw]
    exact Laid.nil.gap n
  cteGap := by
    intro _
    have hw : (Layout.wide n).cteBreak.toList = [',', '\n'] := by
      simp [Layout.cteBreak, Layout.wide]
    rw [hw]
    exact (Laid.nil.gap 0).char ','

end QueryCanvas.Sql
