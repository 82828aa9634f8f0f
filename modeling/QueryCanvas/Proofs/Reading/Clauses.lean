import QueryCanvas.Proofs.Reading.Goes

/-!
# The clauses of a select, one after the other

A block is read off a select clause by clause.  Each clause is a step of its own here, and a block
is read off a query exactly if nothing is there that is refused and all of these steps succeed.
-/

set_option autoImplicit false

namespace QueryCanvas.Sql

open Drafting

/-- The list of results; a lone star chooses nothing. -/
def readResults (s : Scope) : List SelectItem → Drafting Unit
  | [.wildcard _] => return ()
  | items => readItems s items

/-- The `WHERE` clause. -/
def readCondition (s : Scope) : Option Expr → Drafting Unit
  | some e => readFilters s .and e
  | none => return ()

/-- The `HAVING` clause. -/
def readHavings (having : Option Expr) : Drafting Unit :=
  ((having.map (·.conditions .and)).getD []).forM fun c => readHaving c.2 c.1

/-- The `ORDER BY` clause. -/
def readSorting (orderBy : Option (List OrderTerm)) : Drafting Unit :=
  (orderBy.getD []).forM readSortTerm

/-- The limit. -/
def readLimit : Option Expr → Drafting Unit
  | some e => do
    let value ← ask fun _ => e.limit
    edit ({ · with limit := some value })
  | none => return ()

/-- All clauses of a select. -/
def readSelect (s : Scope) (items : List SelectItem) (sources : List FromPart)
    (condition : Option Expr) (groupBy : List Expr) (having : Option Expr) (sx : SelectExtras)
    (orderBy : Option (List OrderTerm)) (limit : Option Expr) : Drafting Unit := do
  refuseExtras sx
  readSources s sources
  readResults s items
  readCondition s condition
  readGrouping sx.groupAll groupBy sx.groupModifiers
  readHavings having
  readSorting orderBy
  readLimit limit

/-- A join with a further source. -/
def readJoin (s : Scope) : JoinClause → Drafting Unit
  | .mk _ .cross source _ => do
    let _ ← readSource s source
  | .mk _ (.kind kind) source constraint => do
    match ← readSource s source with
    | none => refuse "join on a derived table"
    | some joined => readConstraint joined kind constraint
  | .mk _ (.other _) _ _ => refuse "join type"

/-- A result that is no star. -/
def readItem (s : Scope) : Expr → Option Name → Drafting Unit
  | .column parts, named => readColumn (.column parts) named
  | .call function _ arguments tail, named => readAggregate function arguments tail named
  | .subquery q, named => do
    let block ← readBlock s true q
    let id ← mint
    noteAlias named
    let scalar : Subquery :=
      { id, role := .selectList, aliasName := named.map (·.value), linkedFilter := none
        frame := default, block }
    edit fun b => { b with subqueries := b.subqueries ++ [scalar] }
  | _, _ => refuse "expression in select list"

variable {s : Scope} {items : List SelectItem} {sources : List FromPart} {condition : Option Expr}
  {groupBy : List Expr} {having : Option Expr} {sx : SelectExtras}
  {orderBy : Option (List OrderTerm)} {limit : Option Expr} {nested recursive : Bool}
  {ctes : List CtePart} {x : QueryExtras}

/-- A select stands for an empty block if it is `SELECT NULL` with nothing else. -/
theorem isEmptySelect_iff :
    isEmptySelect items sources condition groupBy having sx orderBy limit = true ↔
      items = [.expr .null none] ∧ sources = [] ∧ condition = none ∧ groupBy = [] ∧ having = none ∧
        sx.groupAll = false ∧ orderBy = none ∧ limit = none := by
  constructor
  · intro h
    unfold isEmptySelect at h
    split at h
    · simpa using h
    · cases h
  · rintro ⟨rfl, rfl, rfl, rfl, rfl, hall, rfl, rfl⟩
    simp [isEmptySelect, hall]

/-- A block is read clause by clause. -/
theorem readBlock_select :
    readBlock s nested
        (.mk recursive ctes (.select items sources condition groupBy having sx) orderBy limit x) =
      (do
        if nested && !ctes.isEmpty then refuse "WITH inside a nested query"
        if x.offset.isSome then refuse "OFFSET"
        if x.fetch.isSome then refuse "FETCH"
        if isEmptySelect items sources condition groupBy having sx orderBy limit then
          return Block.empty
        else do
          let (_, draft) ←
            (readSelect s items sources condition groupBy having sx orderBy limit).run Draft.empty
          return draft.block) := by
  match items with
  | [] | [.wildcard _] | .wildcard _ :: _ :: _ | .tableWildcard _ _ :: _ | .expr _ _ :: _ =>
    cases condition <;> cases limit <;> rfl

theorem readBlock_other {form : BodyForm} {text : String} :
    readBlock s nested (.mk recursive ctes (.other form text) orderBy limit x) =
      (do
        if nested && !ctes.isEmpty then refuse "WITH inside a nested query"
        if x.offset.isSome then refuse "OFFSET"
        if x.fetch.isSome then refuse "FETCH"
        refuse form.construct) :=
  rfl

variable {n n' : Nat} {d d' : Draft}

/-- When a block is read off a query, and which. -/
theorem gives_readBlock_select {b : Block} :
    Gives (readBlock s nested
        (.mk recursive ctes (.select items sources condition groupBy having sx) orderBy limit x))
        n b n' ↔
      (nested = true → ctes = []) ∧ x.offset = none ∧ x.fetch = none ∧
        if isEmptySelect items sources condition groupBy having sx orderBy limit then
          b = Block.empty ∧ n' = n
        else ∃ d, Goes (readSelect s items sources condition groupBy having sx orderBy limit) n
          Draft.empty () n' d ∧ b = d.block := by
  rw [readBlock_select]
  simp only [Gives.guard_iff, Bool.and_eq_true, Bool.not_eq_true', not_and, Bool.not_eq_false,
    List.isEmpty_iff, Bool.not_eq_true, Option.isSome_eq_false_iff, Option.isNone_iff_eq_none]
  refine and_congr_right fun _ => and_congr_right fun _ => and_congr_right fun _ => ?_
  split
  · exact Gives.pure_iff
  · rw [Gives.bind_iff]
    constructor
    · rintro ⟨⟨_, d⟩, n₁, hrun, hpure⟩
      obtain ⟨rfl, rfl⟩ := Gives.pure_iff.1 hpure
      exact ⟨d, hrun, rfl⟩
    · rintro ⟨d, hrun, rfl⟩
      exact ⟨((), d), n', hrun, Gives.pure_iff.2 ⟨rfl, rfl⟩⟩

theorem gives_readBlock_other {b : Block} {form : BodyForm} {text : String} :
    ¬Gives (readBlock s nested (.mk recursive ctes (.other form text) orderBy limit x))
      n b n' := by
  rw [readBlock_other]
  simp

/-- None of the clauses is there that are refused. -/
structure SelectExtras.Accepted (x : SelectExtras) : Prop where
  distinct : x.distinct = none
  top : x.top = none
  into : x.into = none
  lateralViews : x.lateralViews = []
  windows : x.windows = none
  qualify : x.qualify = none

theorem goes_refuseExtras {u : Unit} :
    Goes (refuseExtras sx) n d u n' d' ↔ sx.Accepted ∧ n' = n ∧ d' = d := by
  have hlast : Goes (if sx.qualify.isSome then refuse "QUALIFY" else pure ()) n d u n' d' ↔
      sx.qualify = none ∧ n' = n ∧ d' = d := by
    cases sx.qualify <;> simp
  simp only [refuseExtras, Goes.guard_iff, hlast, Bool.not_eq_true, Option.isSome_eq_false_iff,
    Option.isNone_iff_eq_none, Bool.not_eq_true', Bool.not_eq_false, List.isEmpty_iff]
  constructor
  · rintro ⟨h₁, h₂, h₃, h₄, h₅, h₆, hstays⟩
    exact ⟨⟨h₁, h₂, h₃, h₄, h₅, h₆⟩, hstays⟩
  · rintro ⟨⟨h₁, h₂, h₃, h₄, h₅, h₆⟩, hstays⟩
    exact ⟨h₁, h₂, h₃, h₄, h₅, h₆, hstays⟩

/-! ## One clause after the other -/

theorem goes_readSelect {u : Unit} :
    Goes (readSelect s items sources condition groupBy having sx orderBy limit) n d u n' d' ↔
      sx.Accepted ∧
        ∃ n₁ d₁, Goes (readSources s sources) n d () n₁ d₁ ∧
        ∃ n₂ d₂, Goes (readResults s items) n₁ d₁ () n₂ d₂ ∧
        ∃ n₃ d₃, Goes (readCondition s condition) n₂ d₂ () n₃ d₃ ∧
        ∃ n₄ d₄, Goes (readGrouping sx.groupAll groupBy sx.groupModifiers) n₃ d₃ () n₄ d₄ ∧
        ∃ n₅ d₅, Goes (readHavings having) n₄ d₄ () n₅ d₅ ∧
        ∃ n₆ d₆, Goes (readSorting orderBy) n₅ d₅ () n₆ d₆ ∧
          Goes (readLimit limit) n₆ d₆ u n' d' := by
  simp only [readSelect, Goes.then_iff, goes_refuseExtras]
  constructor
  · rintro ⟨_, _, ⟨hx, rfl, rfl⟩, hrest⟩
    exact ⟨hx, hrest⟩
  · rintro ⟨hx, hrest⟩
    exact ⟨n, d, ⟨hx, rfl, rfl⟩, hrest⟩

theorem goes_readSources_cons {source : Source} {joins : List JoinClause} {rest : List FromPart}
    {u : Unit} :
    Goes (readSources s (.mk source joins :: rest)) n d u n' d' ↔
      ∃ joined n₁ d₁, Goes (readSource s source) n d joined n₁ d₁ ∧
      ∃ n₂ d₂, Goes (readJoins s joins) n₁ d₁ () n₂ d₂ ∧
        Goes (readSources s rest) n₂ d₂ u n' d' := by
  rw [readSources, Goes.bind_iff]
  exact exists_congr fun _ => exists_congr fun _ => exists_congr fun _ =>
    and_congr_right fun _ => Goes.then_iff

theorem goes_readJoins_cons {j : JoinClause} {rest : List JoinClause} {u : Unit} :
    Goes (readJoins s (j :: rest)) n d u n' d' ↔
      ∃ n₁ d₁, Goes (readJoin s j) n d () n₁ d₁ ∧ Goes (readJoins s rest) n₁ d₁ u n' d' := by
  obtain ⟨g, op, source, constraint⟩ := j
  cases op with
  | cross =>
    simp only [readJoins, readJoin, Goes.bind_iff, Goes.pure_iff]
    grind
  | kind kind =>
    simp only [readJoins, readJoin, Goes.bind_iff]
    constructor
    · rintro ⟨joined, n₁, d₁, hsource, h⟩
      cases joined with
      | none => simp at h
      | some joined =>
        obtain ⟨n₂, d₂, hconstraint, hrest⟩ := Goes.then_iff.1 h
        exact ⟨n₂, d₂, ⟨some joined, n₁, d₁, hsource, hconstraint⟩, hrest⟩
    · rintro ⟨n₂, d₂, ⟨joined, n₁, d₁, hsource, h⟩, hrest⟩
      cases joined with
      | none => simp at h
      | some joined =>
        exact ⟨some joined, n₁, d₁, hsource, Goes.then_iff.2 ⟨n₂, d₂, h, hrest⟩⟩
  | other text => simp [readJoins, readJoin]

theorem goes_readItems_expr {e : Expr} {named : Option Name} {rest : List SelectItem} {u : Unit} :
    Goes (readItems s (.expr e named :: rest)) n d u n' d' ↔
      ∃ n₁ d₁, Goes (readItem s e named) n d () n₁ d₁ ∧ Goes (readItems s rest) n₁ d₁ u n' d' := by
  cases e with
  | subquery q =>
    simp only [readItems, readItem, Goes.bind_iff]
    grind
  | column parts => exact Goes.then_iff
  | call name parameters arguments tail => exact Goes.then_iff
  | _ => simp [readItems, readItem]

/-- A lone star chooses nothing; otherwise the results are read one after the other. -/
theorem goes_readResults {u : Unit} :
    Goes (readResults s items) n d u n' d' ↔
      (∃ options, items = [.wildcard options]) ∧ n' = n ∧ d' = d ∨
        Goes (readItems s items) n d u n' d' := by
  match items with
  | [.wildcard options] =>
    have hrefused : ¬Goes (readItems s [.wildcard options]) n d u n' d' := Goes.refuse_iff
    simp [readResults, hrefused]
  | [] | .wildcard _ :: _ :: _ | .tableWildcard _ _ :: _ | .expr _ _ :: _ => simp [readResults]

/-! ## Texts -/

/-- A canvas is read off a text if the text is a query and the canvas is read off that query. -/
theorem gives_readText {dialect : Dialect} {catalog : Catalog} {text : String} {c : Canvas} :
    Gives (readText dialect catalog text) n c n' ↔
      ∃ q, Query.parse dialect text = .ok q ∧ Gives (readCanvas catalog q) n c n' := by
  rw [readText, Gives.bind_iff]
  unfold readQuery
  constructor
  · rintro ⟨q, n₁, hparse, hread⟩
    split at hparse
    · rename_i hok
      obtain ⟨rfl, rfl⟩ := Gives.pure_iff.1 hparse
      exact ⟨q, hok, hread⟩
    · cases hparse
  · rintro ⟨q, hok, hread⟩
    rw [hok]
    exact ⟨q, n, Gives.pure_iff.2 ⟨rfl, rfl⟩, hread⟩

end QueryCanvas.Sql
