import QueryCanvas.Proofs.Reading.Depicted

/-!
# What the `FROM` clause makes known

Each table in the `FROM` clause becomes a table of the block, in the same order.  It is known by its
alias, if it has one, and after that by its name; a nested query is known by its alias.  Each
equality that ties a joined table to the tables before it becomes a join.
-/

set_option autoImplicit false

namespace QueryCanvas

open Sql

namespace Sql

/-! ## The sources and the equalities of a `FROM` clause -/

/-- The source of a join. -/
def JoinClause.source : JoinClause → Source
  | .mk _ _ source _ => source

/-- The equalities of a join, with the kind of the join. -/
def JoinClause.equalities : JoinClause → List (JoinKind × Expr)
  | .mk _ (.kind kind) _ (.on condition) => (condition.conditions .and).map fun c => (kind, c.1)
  | _ => []

/-- The sources of an item, joined ones included. -/
def FromPart.sources : FromPart → List Source
  | .mk source joins => source :: joins.map JoinClause.source

def FromPart.equalities : FromPart → List (JoinKind × Expr)
  | .mk _ joins => joins.flatMap JoinClause.equalities

/-- The nested query that a source is. -/
def Source.nestedQuery? : Source → Option Query
  | .derived _ q _ => some q
  | _ => none

/-- By what a source is known, and as which table it is drawn. -/
inductive Source.Known : Source → List SourceName → List Table → Prop where
  | table {name : List Name} {arguments : Option String} {named : Option Alias}
      {marks : String × String} {t : Table} (hname : Text.sameName t.name (plainPath name)) :
      Source.Known (.table name arguments named marks)
        ((named.map fun a => ⟨a.name.value, some (t.id, t.name)⟩).toList ++
          [⟨t.name, some (t.id, t.name)⟩]) [t]
  | derived {lateral : Bool} {q : Query} {named : Option Alias} :
      Source.Known (.derived lateral q named)
        (named.map fun a => ⟨a.name.value, none⟩).toList []

end Sql

/-- The join depicts an equality. -/
def Join.Depicts (d : Draft) (kind : JoinKind) (j : Join) : Expr → Prop
  | .binary left (.compare .eq) right =>
    joinSide left d = .ok (j.sourceTable, j.sourceColumn) ∧
      joinSide right d = .ok (j.targetTable, j.targetColumn) ∧ j.kind = kind
  | _ => False

namespace Sql

/-- What reading sources and equalities adds to a draft. -/
structure FromDepicted (s : Scope) (d : Draft) (sources : List Source)
    (equalities : List (JoinKind × Expr)) (d' : Draft) : Prop where
  known : ∃ known : List (List SourceName × List Table),
    sources.Forall₂ (fun source k => source.Known k.1 k.2) known ∧
      d'.sources = d.sources ++ known.flatMap (·.1) ∧
      d'.block.tables = d.block.tables ++ known.flatMap (·.2)
  joins : ∃ js, equalities.Forall₂ (fun e j => Join.Depicts d' e.1 j e.2) js ∧
    d'.block.joins = d.block.joins ++ js
  subqueries : ∃ subs, (sources.filterMap Source.nestedQuery?).Forall₂ (ReadOff s) subs ∧
    d'.block.subqueries = d.block.subqueries ++ subs
  aliases : d'.aliases = d.aliases
  beside : d'.block.besideFrom = d.block.besideFrom

/-! ## Names that are known stay known -/

/-- Sources that are tables are tables of the block. -/
def Draft.TablesThere (d : Draft) : Prop :=
  ∀ k ∈ d.sources, ∀ id name, k.table = some (id, name) → ∃ t ∈ d.block.tables, t.id = id

/-- More is known than before. -/
structure Draft.Extends (d d' : Draft) : Prop where
  sources : d.sources <+: d'.sources
  tables : d.block.tables <+: d'.block.tables

variable {s : Scope} {d d' : Draft}

theorem FromDepicted.extends {sources : List Source} {equalities : List (JoinKind × Expr)}
    (h : FromDepicted s d sources equalities d') : d.Extends d' := by
  obtain ⟨known, -, hsources, htables⟩ := h.known
  exact ⟨hsources ▸ List.prefix_append _ _, htables ▸ List.prefix_append _ _⟩

namespace Draft.Extends

theorem source (h : d.Extends d') {name : String} {k : SourceName}
    (hfound : d.source? name = some k) : d'.source? name = some k := by
  obtain ⟨more, hmore⟩ := h.sources
  rw [Draft.source?] at hfound
  rw [Draft.source?, ← hmore, List.find?_append, hfound]
  rfl

theorem declared (h : d.Extends d') {id : EntityId} (hthere : ∃ t ∈ d.block.tables, t.id = id)
    (column : String) : d'.declared id column = d.declared id column := by
  obtain ⟨more, hmore⟩ := h.tables
  have htable : d'.block.table? id = d.block.table? id := by
    obtain ⟨t, ht, hid⟩ := hthere
    have hsome : (d.block.tables.find? (·.id = id)).isSome := by
      rw [List.find?_isSome]
      exact ⟨t, ht, by simpa using hid⟩
    rw [Block.table?, Block.table?, ← hmore, List.find?_append, Option.or_of_isSome hsome]
  rw [Draft.declared, Draft.declared, htable]

theorem joinSide (h : d.Extends d') (hthere : d.TablesThere) {e : Expr} {side : EntityId × String}
    (hside : Sql.joinSide e d = .ok side) : Sql.joinSide e d' = .ok side := by
  unfold Sql.joinSide at hside ⊢
  split at hside
  · rename_i qualifier column _
    cases hfound : d.source? qualifier with
    | none =>
      rw [hfound] at hside
      cases hside
    | some k =>
      rw [hfound] at hside
      rw [h.source hfound]
      rw [Option.bind_some] at hside ⊢
      split at hside
      · rename_i id name htable
        have hmem : k ∈ d.sources := List.mem_of_find?_eq_some hfound
        rw [h.declared (hthere k hmem id name htable)]
        exact hside
      · cases hside
  · cases hside

end Draft.Extends

end Sql

theorem Join.Depicts.extend {d d' : Draft} {kind : JoinKind} {j : Join} (h : d.Extends d')
    (hthere : d.TablesThere) : ∀ {e : Expr}, Join.Depicts d kind j e → Join.Depicts d' kind j e
  | .binary _ (.compare .eq) _, ⟨hleft, hright, hkind⟩ =>
    ⟨h.joinSide hthere hleft, h.joinSide hthere hright, hkind⟩

namespace Sql

/-! ## One source after the other -/

/-- What a member of the second list corresponds to in the first one. -/
theorem exists_of_mem_right {α β : Type} {R : α → β → Prop} {l : List α} {l' : List β}
    (h : l.Forall₂ R l') {b : β} (hb : b ∈ l') : ∃ a ∈ l, R a b := by
  induction h with
  | nil => cases hb
  | cons hR _ ih =>
    rcases List.mem_cons.1 hb with rfl | hb
    · exact ⟨_, List.mem_cons_self, hR⟩
    · obtain ⟨a, ha, hR⟩ := ih hb
      exact ⟨a, List.mem_cons_of_mem _ ha, hR⟩

/-- What a member of the first list corresponds to in the second one. -/
theorem exists_of_mem_left {α β : Type} {R : α → β → Prop} {l : List α} {l' : List β}
    (h : l.Forall₂ R l') {a : α} (ha : a ∈ l) : ∃ b ∈ l', R a b := by
  obtain ⟨b, hb, hR⟩ := exists_of_mem_right h.flip ha
  exact ⟨b, hb, hR⟩

variable {s : Scope} {d d' d'' : Draft} {n n' : Nat}

theorem FromDepicted.nil (d : Draft) : FromDepicted s d [] [] d :=
  ⟨⟨[], .nil, by simp, by simp⟩, ⟨[], .nil, by simp⟩, ⟨[], .nil, by simp⟩, rfl, rfl⟩

theorem Source.Known.there {source : Source} {keys : List SourceName} {tables : List Table}
    (h : source.Known keys tables) :
    ∀ k ∈ keys, ∀ id name, k.table = some (id, name) → ∃ t ∈ tables, t.id = id := by
  cases h with
  | @table name arguments named marks t hname =>
    have htable : ∀ id name, some (t.id, t.name) = some (id, name) → ∃ u ∈ [t], u.id = id := by
      rintro _ _ ⟨⟩
      exact ⟨t, List.mem_singleton_self t, rfl⟩
    intro k hk
    rcases List.mem_append.1 hk with hk | hk
    · obtain ⟨a, -, rfl⟩ := Option.map_eq_some_iff.1 (Option.mem_toList.1 hk)
      exact htable
    · rw [List.mem_singleton.1 hk]
      exact htable
  | derived =>
    intro k hk
    obtain ⟨a, -, rfl⟩ := Option.map_eq_some_iff.1 (Option.mem_toList.1 hk)
    simp

theorem FromDepicted.tablesThere {sources : List Source} {equalities : List (JoinKind × Expr)}
    (h : FromDepicted s d sources equalities d') (hthere : d.TablesThere) : d'.TablesThere := by
  obtain ⟨known, hknown, hsources, htables⟩ := h.known
  intro k hk id name htable
  rw [hsources] at hk
  rw [htables]
  rcases List.mem_append.1 hk with hk | hk
  · obtain ⟨t, ht, hid⟩ := hthere k hk id name htable
    exact ⟨t, List.mem_append_left _ ht, hid⟩
  · obtain ⟨entry, hentry, hk⟩ := List.mem_flatMap.1 hk
    obtain ⟨source, -, hsource⟩ := exists_of_mem_right hknown hentry
    obtain ⟨t, ht, hid⟩ := hsource.there k hk id name htable
    exact ⟨t, List.mem_append_right _ (List.mem_flatMap.2 ⟨entry, hentry, ht⟩), hid⟩

theorem FromDepicted.append {l l' : List Source} {es es' : List (JoinKind × Expr)}
    (h : FromDepicted s d l es d') (h' : FromDepicted s d' l' es' d'') (hthere : d.TablesThere) :
    FromDepicted s d (l ++ l') (es ++ es') d'' := by
  have hmore := h'.extends
  have hthere' := h.tablesThere hthere
  obtain ⟨⟨known, hknown, hsources, htables⟩, ⟨js, hjs, hjoins⟩, ⟨subs, hsubs, hnested⟩, haliases,
    hbeside⟩ := h
  obtain ⟨⟨known', hknown', hsources', htables'⟩, ⟨js', hjs', hjoins'⟩, ⟨subs', hsubs', hnested'⟩,
    haliases', hbeside'⟩ := h'
  refine ⟨⟨known ++ known', List.rel_append hknown hknown', ?_, ?_⟩, ⟨js ++ js', ?_, ?_⟩,
    ⟨subs ++ subs', ?_, ?_⟩, haliases'.trans haliases, hbeside'.trans hbeside⟩
  · rw [hsources', hsources, List.flatMap_append, List.append_assoc]
  · rw [htables', htables, List.flatMap_append, List.append_assoc]
  · exact List.rel_append (hjs.imp fun e j hj => hj.extend hmore hthere') hjs'
  · rw [hjoins', hjoins, List.append_assoc]
  · rw [List.filterMap_append]
    exact List.rel_append hsubs hsubs'
  · rw [hnested', hnested, List.append_assoc]

theorem addTable_known {name : List Name} {named : Option Alias} (arguments : Option String)
    (marks : String × String) {t : Table} (hname : Text.sameName t.name (plainPath name)) :
    FromDepicted s d [.table name arguments named marks] []
      { d with
        sources := d.sources ++ (named.map fun a => ⟨a.name.value, some (t.id, t.name)⟩).toList ++
          [⟨t.name, some (t.id, t.name)⟩]
        block := d.block.addTable t } := by
  refine ⟨⟨[(_, [t])], .cons (.table hname) .nil, ?_, ?_⟩, ⟨[], .nil, ?_⟩, ⟨[], .nil, ?_⟩, rfl, rfl⟩
  · simp
  · simp [Block.addTable]
  · simp [Block.addTable]
  · simp [Block.addTable]

theorem readTable_known {name : List Name} {named : Option Alias} (arguments : Option String)
    (marks : String × String) {id : EntityId} (h : Goes (readTable s name named) n d id n' d') :
    FromDepicted s d [.table name arguments named marks] [] d' := by
  obtain ⟨_, _, _, hget, hrest⟩ := Goes.bind_iff.1 h
  obtain ⟨rfl, rfl, rfl⟩ := Goes.get_iff.1 hget
  simp only [Goes.guard_iff, Goes.bind_iff, Goes.mint_iff, Goes.modify_iff, Goes.pure_iff] at hrest
  obtain ⟨-, id', _, _, ⟨-, rfl, rfl⟩, -, _, _, _, ⟨rfl, rfl⟩, -, rfl, rfl⟩ := hrest
  cases hcte : if name.length = 1 then s.ctes.find? (Text.sameName ·.name (plainPath name))
      else none with
  | none =>
    exact addTable_known (t := Table.create _ _ _ _) arguments marks (Text.sameName_refl _)
  | some q =>
    have hname : Text.sameName q.name (plainPath name) = true := by
      split at hcte
      · have hfound := List.find?_some hcte
        exact hfound
      · cases hcte
    exact addTable_known (t := { Table.create _ q.name _ _ with cte := some q.id }) arguments marks
      hname

theorem readSource_known (source : Source) {joined : Option EntityId}
    (h : Goes (readSource s source) n d joined n' d') : FromDepicted s d [source] [] d' := by
  cases source with
  | table name arguments named marks =>
    rw [readSource, Goes.guard_iff, Goes.map_iff] at h
    obtain ⟨-, id, htable, -⟩ := h
    exact readTable_known arguments marks htable
  | derived lateral q named =>
    simp only [readSource, Goes.guard_iff, Goes.bind_iff, Goes.lift_iff, Goes.mint_iff,
      Goes.modify_iff, Goes.pure_iff] at h
    obtain ⟨-, b, _, _, ⟨hread, rfl⟩, id, _, _, ⟨-, rfl, rfl⟩, -, _, _, _, ⟨rfl, rfl⟩, -, rfl,
      rfl⟩ := h
    refine ⟨⟨[(_, [])], .cons .derived .nil, ?_, by simp⟩, ⟨[], .nil, by simp⟩,
      ⟨[_], .cons ⟨_, _, hread⟩ .nil, rfl⟩, rfl, rfl⟩
    cases named <;> simp
  | _ => exact absurd h Goes.refuse_iff

/-- An equality becomes a join. -/
theorem readEquality_known {joined : EntityId} {kind : JoinKind} {e : Expr}
    (h : Goes (readEquality joined kind e) n d () n' d') : FromDepicted s d [] [(kind, e)] d' := by
  unfold readEquality at h
  split at h
  · rename_i left right
    simp only [Goes.bind_iff, Goes.ask_iff, Goes.guard_iff, Goes.get_iff, Goes.mint_iff,
      Goes.edit_iff] at h
    obtain ⟨source, _, d, ⟨hsource, rfl, rfl⟩, target, _, d, ⟨htarget, rfl, rfl⟩, -, -, _, _, d,
      ⟨rfl, rfl, rfl⟩, hcan, id, _, d, ⟨-, rfl, rfl⟩, -, rfl⟩ := h
    simp only [Bool.not_eq_true', Bool.not_eq_false] at hcan
    unfold Block.addJoin
    rw [if_pos hcan]
    have hkept : d.SameNames { d with block := { d.block with joins := d.block.joins ++ [
        { id, sourceTable := source.1, sourceColumn := source.2, targetTable := target.1,
          targetColumn := target.2, kind }] } } := .kept rfl rfl
    refine ⟨⟨[], .nil, by simp, by simp⟩, ⟨[_], .cons ⟨?_, ?_, rfl⟩ .nil, rfl⟩,
      ⟨[], .nil, by simp⟩, rfl, rfl⟩
    · exact (hkept.joinSide left).trans hsource
    · exact (hkept.joinSide right).trans htarget
  · exact absurd h Goes.refuse_iff

theorem readConstraint_known {joined : EntityId} {kind : JoinKind} {constraint : Constraint}
    {global : Bool} {source : Source} (hthere : d.TablesThere)
    (h : Goes (readConstraint joined kind constraint) n d () n' d') :
    FromDepicted s d [] (JoinClause.equalities (.mk global (.kind kind) source constraint)) d' := by
  cases constraint with
  | on condition =>
    simp only [readConstraint, readJoinCondition, Goes.guard_iff] at h
    obtain ⟨-, hequalities⟩ := h
    rw [JoinClause.equalities]
    revert hequalities
    generalize condition.conditions .and = conditions
    intro hequalities
    induction conditions generalizing n d with
    | nil =>
      obtain ⟨-, rfl⟩ := Goes.forM_nil.1 hequalities
      exact .nil _
    | cons c rest ih =>
      obtain ⟨n₁, d₁, hc, hrest⟩ := Goes.forM_cons.1 hequalities
      have hfirst := readEquality_known (s := s) hc
      exact hfirst.append (ih (hfirst.tablesThere hthere) hrest) hthere
  | none =>
    obtain ⟨-, -, rfl⟩ := Goes.pure_iff.1 h
    exact .nil _
  | _ => exact absurd h Goes.refuse_iff

theorem readJoin_known {j : JoinClause} (hthere : d.TablesThere)
    (h : Goes (readJoin s j) n d () n' d') : FromDepicted s d [j.source] j.equalities d' := by
  obtain ⟨global, op, source, constraint⟩ := j
  cases op with
  | cross =>
    obtain ⟨joined, n₁, d₁, hsource, hpure⟩ := Goes.bind_iff.1 h
    obtain ⟨-, -, rfl⟩ := Goes.pure_iff.1 hpure
    exact readSource_known source hsource
  | kind kind =>
    obtain ⟨joined, n₁, d₁, hsource, hconstraint⟩ := Goes.bind_iff.1 h
    have hfirst := readSource_known source hsource
    cases joined with
    | none => exact absurd hconstraint Goes.refuse_iff
    | some id =>
      exact hfirst.append (readConstraint_known (hfirst.tablesThere hthere) hconstraint) hthere
  | other text => exact absurd h Goes.refuse_iff

theorem readJoins_known (joins : List JoinClause) : ∀ {n n' : Nat} {d d' : Draft}, d.TablesThere →
    Goes (readJoins s joins) n d () n' d' →
      FromDepicted s d (joins.map JoinClause.source) (joins.flatMap JoinClause.equalities) d' := by
  induction joins with
  | nil =>
    intro n n' d d' _ h
    obtain ⟨-, -, rfl⟩ := Goes.pure_iff.1 h
    exact .nil _
  | cons j rest ih =>
    intro n n' d d' hthere h
    obtain ⟨n₁, d₁, hj, hrest⟩ := goes_readJoins_cons.1 h
    have hfirst := readJoin_known hthere hj
    exact hfirst.append (ih (hfirst.tablesThere hthere) hrest) hthere

theorem tablesThere_empty : Draft.empty.TablesThere := by simp [Draft.TablesThere, Draft.empty]

/-- What the items of a `FROM` clause make known. -/
theorem readSources_known (sources : List FromPart) : ∀ {n n' : Nat} {d d' : Draft}, d.TablesThere →
    Goes (readSources s sources) n d () n' d' →
      FromDepicted s d (sources.flatMap FromPart.sources) (sources.flatMap FromPart.equalities)
        d' := by
  induction sources with
  | nil =>
    intro n n' d d' _ h
    obtain ⟨-, -, rfl⟩ := Goes.pure_iff.1 h
    exact .nil _
  | cons part rest ih =>
    intro n n' d d' hthere h
    obtain ⟨source, joins⟩ := part
    obtain ⟨joined, n₁, d₁, hsource, n₂, d₂, hjoins, hrest⟩ := goes_readSources_cons.1 h
    have hfirst := readSource_known source hsource
    have hthere₁ := hfirst.tablesThere hthere
    have hitem := hfirst.append (readJoins_known joins hthere₁ hjoins) hthere
    exact hitem.append (ih (hitem.tablesThere hthere) hrest) hthere

/-! ## Blocks -/

/-- The clauses of a query that is a select. -/
def Query.clauses? : Query → Option Clauses
  | .mk _ _ (.select items sources condition groupBy having _) orderBy limit _ =>
    some { items, sources, condition, groupBy, having, orderBy, limit }
  | .mk _ _ (.other _ _) _ _ _ => none

/-- All sources in the `FROM` clause. -/
def Clauses.allSources (q : Clauses) : List Source := q.sources.flatMap FromPart.sources

/-- All equalities in the `FROM` clause that tie joined tables to others. -/
def Clauses.allEqualities (q : Clauses) : List (JoinKind × Expr) :=
  q.sources.flatMap FromPart.equalities

/-- The clauses of `SELECT NULL`. -/
def Clauses.null : Clauses :=
  { items := [.expr .null none], sources := [], condition := none, groupBy := [], having := none
    orderBy := none, limit := none }

/-- A block that is read off a select depicts its clauses with the draft that reading its `FROM`
clause leads to; that of `SELECT NULL` is empty. -/
theorem readBlock_goes {nested : Bool} {q : Query} {b : Block}
    (h : Gives (readBlock s nested q) n b n') :
    ∃ clauses, q.clauses? = some clauses ∧ (b = Block.empty ∧ clauses = Clauses.null ∨
      ∃ n₁ d, Goes (readSources s clauses.sources) n Draft.empty () n₁ d ∧
        clauses.Depicted s d b) := by
  match q with
  | .mk _ _ (.other _ _) _ _ _ => exact absurd h gives_readBlock_other
  | .mk _ ctes (.select items sources condition groupBy having sx) orderBy limit x =>
    refine ⟨_, rfl, ?_⟩
    obtain ⟨-, -, -, hselect⟩ := gives_readBlock_select.1 h
    split at hselect
    · rename_i hempty
      obtain ⟨rfl, rfl, rfl, rfl, rfl, -, rfl, rfl⟩ := isEmptySelect_iff.1 hempty
      exact .inl ⟨hselect.1, rfl⟩
    · obtain ⟨d', hgoes, rfl⟩ := hselect
      obtain ⟨n₁, d, hsources, hdepicted⟩ := readSelect_depicted
        (q := { items, sources, condition, groupBy, having, orderBy, limit }) hgoes fun h =>
          ⟨(readSources_known sources tablesThere_empty h).aliases,
            (readSources_known sources tablesThere_empty h).beside⟩
      exact .inr ⟨n₁, d, hsources, hdepicted⟩

/-- A block that is read off a select depicts its clauses, with the names that its `FROM` clause
makes known; that of `SELECT NULL` is empty. -/
theorem readBlock_depicted {nested : Bool} {q : Query} {b : Block}
    (h : Gives (readBlock s nested q) n b n') :
    ∃ clauses, q.clauses? = some clauses ∧ (b = Block.empty ∧ clauses = Clauses.null ∨
      ∃ d, FromDepicted s Draft.empty clauses.allSources clauses.allEqualities d ∧
        clauses.Depicted s d b) := by
  obtain ⟨clauses, hclauses, hempty | ⟨n₁, d, hsources, hdepicted⟩⟩ := readBlock_goes h
  · exact ⟨clauses, hclauses, .inl hempty⟩
  · exact ⟨clauses, hclauses,
      .inr ⟨d, readSources_known clauses.sources tablesThere_empty hsources, hdepicted⟩⟩

/-! ## Blocks with something to read from -/

theorem hasNoSource_eq_false_iff {b : Block} :
    b.hasNoSource = false ↔ b.tables ≠ [] ∨ ∃ s ∈ b.subqueries, s.role = .fromClause := by
  simp only [Block.hasNoSource, Block.subqueriesIn, Bool.and_eq_false_iff, ne_eq,
    List.isEmpty_eq_false_iff, List.filter_eq_nil_iff, decide_eq_true_eq, not_forall, not_not,
    exists_prop]

/-- Whatever else is read, there is still something to read from. -/
theorem FromDepicted.hasNoSource {sources : List Source} {equalities : List (JoinKind × Expr)}
    (h : FromDepicted s d sources equalities d') (hd : d.block.hasNoSource = false) :
    d'.block.hasNoSource = false := by
  obtain ⟨known, -, -, htables⟩ := h.known
  obtain ⟨subs, -, hsubs⟩ := h.subqueries
  rw [hasNoSource_eq_false_iff] at hd ⊢
  refine hd.imp (fun hne => ?_) fun ⟨q, hq, hrole⟩ => ⟨q, ?_, hrole⟩
  · simp [htables, hne]
  · rw [hsubs]
    exact List.mem_append_left _ hq

theorem readSource_hasNoSource (source : Source) {joined : Option EntityId}
    (h : Goes (readSource s source) n d joined n' d') : d'.block.hasNoSource = false := by
  rw [hasNoSource_eq_false_iff]
  cases source with
  | table name arguments named marks =>
    obtain ⟨known, hknown, -, htables⟩ := (readSource_known _ h).known
    refine .inl ?_
    cases hknown with
    | @cons _ first _ _ hfirst _ =>
      obtain ⟨names, tables⟩ := first
      cases hfirst
      simp [htables]
  | derived lateral q named =>
    simp only [readSource, Goes.guard_iff, Goes.bind_iff, Goes.lift_iff, Goes.mint_iff,
      Goes.modify_iff, Goes.pure_iff] at h
    obtain ⟨-, b, _, _, -, id, _, _, -, -, _, _, _, ⟨rfl, rfl⟩, -, rfl, rfl⟩ := h
    exact .inr ⟨_, List.mem_append_right _ (List.mem_singleton_self _), rfl⟩
  | _ => exact absurd h Goes.refuse_iff

/-- A `FROM` clause gives the block something to read from. -/
theorem readSources_hasNoSource {sources : List FromPart} (hne : sources ≠ [])
    (h : Goes (readSources s sources) n Draft.empty () n' d') : d'.block.hasNoSource = false := by
  cases sources with
  | nil => exact absurd rfl hne
  | cons part rest =>
    obtain ⟨source, joins⟩ := part
    obtain ⟨joined, n₁, d₁, hsource, n₂, d₂, hjoins, hrest⟩ := goes_readSources_cons.1 h
    have hthere₁ := (readSource_known source hsource).tablesThere tablesThere_empty
    have hjoined := readJoins_known joins hthere₁ hjoins
    exact (readSources_known rest (hjoined.tablesThere hthere₁) hrest).hasNoSource
      (hjoined.hasNoSource (readSource_hasNoSource source hsource))

/-- Results and conditions leave a block with something to read from. -/
theorem Clauses.Depicted.hasNoSource {k : Clauses} {b : Block} (h : k.Depicted s d b)
    (hd : d.block.hasNoSource = false) : b.hasNoSource = false := by
  obtain ⟨choices, -, htables⟩ := h.results
  obtain ⟨subs, -, hsubs⟩ := h.subqueries
  rw [hasNoSource_eq_false_iff] at hd ⊢
  refine hd.imp (fun hne hempty => hne ?_) fun ⟨q, hq, hrole⟩ => ⟨q, ?_, hrole⟩
  · have hsame := unchosen_foldl_choose choices d.block.tables
    rw [← htables, hempty] at hsame
    exact List.map_eq_nil_iff.1 hsame.symm
  · rw [hsubs]
    exact List.mem_append_left _ hq

end Sql

end QueryCanvas
