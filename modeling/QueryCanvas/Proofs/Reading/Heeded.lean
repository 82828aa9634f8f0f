import QueryCanvas.Proofs.Reading.Clauses

/-!
# What reading takes no notice of

Some parts of a query are refused and some are drawn.  The others are neither: reading goes on as if
they were not there.  Here these parts are taken out of a query at every level that becomes a block,
which does not change what is read off it.  A query from which a canvas is read loses nothing
exactly if it has no such parts.
-/

set_option autoImplicit false

namespace QueryCanvas.Sql

/-! ## Constructs without a place on the canvas -/

/-- A select without `DISTINCT`, `TOP`, `INTO`, `LATERAL VIEW`, `WINDOW`, `QUALIFY`, clauses of
distribution and sorting, and `CONNECT BY`. -/
structure SelectExtras.Plain (x : SelectExtras) : Prop where
  distinct : x.distinct = none
  top : x.top = none
  into : x.into = none
  lateralViews : x.lateralViews = []
  windows : x.windows = none
  qualify : x.qualify = none
  distribution : x.distribution = []
  connectBy : x.connectBy = none

/-- A query without `OFFSET`, `FETCH`, `LIMIT … BY` and locks. -/
structure QueryExtras.Plain (x : QueryExtras) : Prop where
  offset : x.offset = .none
  fetch : x.fetch = .none
  limitBy : x.limitBy = .none
  locks : x.locks = []

/-- An expression that is no call with a treatment of missing values. -/
def Expr.PlainCall : Expr → Prop
  | .call _ _ _ tail => tail.nullTreatment = none
  | _ => True

/-- A condition on groups, the aggregates of which treat no missing values. -/
def Expr.PlainHaving : Expr → Prop
  | .binary left .and right => left.PlainHaving ∧ right.PlainHaving
  | .binary left .or right => left.PlainHaving ∧ right.PlainHaving
  | .binary left _ _ => left.PlainCall
  | _ => True

/-- A term without `NULLS FIRST`, `NULLS LAST` and a treatment of missing values. -/
def OrderTerm.Plain : OrderTerm → Prop
  | .mk e _ nullsFirst _ => nullsFirst = none ∧ e.PlainCall

/-- The named queries of a query. -/
def Query.ctes : Query → List CtePart
  | .mk _ ctes _ _ _ _ => ctes

mutual

/-- A query that has none of the constructs without a place on the canvas, at none of the levels
that become blocks. -/
def Query.Plain : Query → Prop
  | .mk _ ctes body orderBy _ x =>
    x.Plain ∧ PlainCtes ctes ∧ body.Plain ∧ ∀ t ∈ orderBy.getD [], t.Plain

/-- Named queries none of which is `MATERIALIZED` or not. -/
def PlainCtes : List CtePart → Prop
  | [] => True
  | .mk _ materialized q _ :: rest => materialized = none ∧ q.Plain ∧ PlainCtes rest

/-- A body that has none of the constructs. -/
def Body.Plain : Body → Prop
  | .select items sources condition _ having x =>
    x.Plain ∧ PlainItems items ∧ PlainSources sources ∧ PlainWhere condition ∧
      ∀ e ∈ having, e.PlainHaving
  | .other _ _ => True

/-- Results without anything added to a star. -/
def PlainItems : List SelectItem → Prop
  | [] => True
  | .expr (.subquery q) _ :: rest => q.Plain ∧ PlainItems rest
  | .expr e _ :: rest => e.PlainCall ∧ PlainItems rest
  | .wildcard options :: rest => options = "" ∧ PlainItems rest
  | .tableWildcard _ options :: rest => options = "" ∧ PlainItems rest

/-- Sources none of which has hints, versions or partitions. -/
def PlainSources : List FromPart → Prop
  | [] => True
  | .mk source joins :: rest => source.Plain ∧ PlainJoins joins ∧ PlainSources rest

/-- Joined sources none of which has hints, versions or partitions. -/
def PlainJoins : List JoinClause → Prop
  | [] => True
  | .mk _ _ source _ :: rest => source.Plain ∧ PlainJoins rest

/-- A source without hints, versions or partitions. -/
def Source.Plain : Source → Prop
  | .table _ _ _ marks => marks = ("", "")
  | .derived _ q _ => q.Plain
  | .joined _ => True
  | .other _ => True

/-- No condition, or one without `LIKE ANY`. -/
def PlainWhere : Option Expr → Prop
  | some e => e.PlainCondition
  | none => True

/-- A condition without `LIKE ANY`. -/
def Expr.PlainCondition : Expr → Prop
  | .binary left .and right => left.PlainCondition ∧ right.PlainCondition
  | .binary left .or right => left.PlainCondition ∧ right.PlainCondition
  | .binary _ _ (.subquery q) => q.Plain
  | .inQuery _ _ q => q.Plain
  | .like _ _ any _ _ _ => any = false
  | _ => True

end

/-! ## Taking out what is not heeded -/

/-- The extras of a select as far as they are heeded.  Of `SELECT NULL` with nothing else none
is. -/
def SelectExtras.heeded (empty : Bool) (x : SelectExtras) : SelectExtras :=
  let rest := { x with distribution := [], connectBy := none }
  if empty then
    { rest with
      distinct := none, top := none, into := none, lateralViews := [], windows := none
      qualify := none }
  else rest

def QueryExtras.heeded (x : QueryExtras) : QueryExtras := { x with limitBy := .none, locks := [] }

/-- A call without a treatment of missing values. -/
def Expr.heededCall : Expr → Expr
  | .call name parameters arguments tail =>
    .call name parameters arguments { tail with nullTreatment := none }
  | e => e

def Expr.heededHaving : Expr → Expr
  | .binary left .and right => .binary left.heededHaving .and right.heededHaving
  | .binary left .or right => .binary left.heededHaving .or right.heededHaving
  | .binary left op right => .binary left.heededCall op right
  | e => e

def OrderTerm.heeded : OrderTerm → OrderTerm
  | .mk e descending nullsFirst marks => .mk e.heededCall descending nullsFirst marks

mutual

/-- The query as far as it is heeded, at every level that becomes a block. -/
def Query.heeded : Query → Query
  | .mk recursive ctes (.select items sources condition groupBy having sx) orderBy limit x =>
    .mk recursive (heededCtes ctes)
      (.select (heededItems items) (heededSources sources) (heededWhere condition) groupBy
        (having.map Expr.heededHaving)
        (sx.heeded (isEmptySelect items sources condition groupBy having sx orderBy limit)))
      (orderBy.map (·.map OrderTerm.heeded)) limit x.heeded
  | .mk recursive ctes (.other form text) orderBy limit x =>
    .mk recursive (heededCtes ctes) (.other form text)
      (orderBy.map (·.map OrderTerm.heeded)) limit x.heeded

def heededCtes : List CtePart → List CtePart
  | [] => []
  | .mk named _ q source :: rest => .mk named none q.heeded source :: heededCtes rest

def heededItems : List SelectItem → List SelectItem
  | [] => []
  | .expr (.subquery q) named :: rest => .expr (.subquery q.heeded) named :: heededItems rest
  | .expr e named :: rest => .expr e.heededCall named :: heededItems rest
  | .wildcard _ :: rest => .wildcard "" :: heededItems rest
  | .tableWildcard table _ :: rest => .tableWildcard table "" :: heededItems rest

def heededSources : List FromPart → List FromPart
  | [] => []
  | .mk source joins :: rest => .mk source.heeded (heededJoins joins) :: heededSources rest

def heededJoins : List JoinClause → List JoinClause
  | [] => []
  | .mk global op source constraint :: rest =>
    .mk global op source.heeded constraint :: heededJoins rest

def Source.heeded : Source → Source
  | .table name arguments named _ => .table name arguments named ("", "")
  | .derived lateral q named => .derived lateral q.heeded named
  | .joined text => .joined text
  | .other text => .other text

def heededWhere : Option Expr → Option Expr
  | some e => some e.heededCondition
  | none => none

def Expr.heededCondition : Expr → Expr
  | .binary left .and right => .binary left.heededCondition .and right.heededCondition
  | .binary left .or right => .binary left.heededCondition .or right.heededCondition
  | .binary left op (.subquery q) => .binary left op (.subquery q.heeded)
  | .inQuery subject negated q => .inQuery subject negated q.heeded
  | .like anyCase negated _ subject pattern escape =>
    .like anyCase negated false subject pattern escape
  | e => e

end

/-! ## Reading what is heeded -/

variable {s : Scope}

theorem conditions_heededHaving : ∀ (e : Expr) (last : Connector),
    e.heededHaving.conditions last = (e.conditions last).map fun c => (c.1.heededHaving, c.2)
  | .binary left op right, last => by
    cases op with
    | and =>
      simp only [Expr.heededHaving, Expr.conditions, List.map_append,
        conditions_heededHaving left, conditions_heededHaving right]
    | or =>
      simp only [Expr.heededHaving, Expr.conditions, List.map_append,
        conditions_heededHaving left, conditions_heededHaving right]
    | _ => rfl
  | .column _, _ | .number _ _, _ | .text _, _ | .null, _ | .nested _, _ | .subquery _, _
  | .signed _ _, _ | .like _ _ _ _ _ _, _ | .test _ _, _ | .inList _ _ _, _ | .inQuery _ _ _, _
  | .between _ _ _ _, _ | .call _ _ _ _, _ | .other _, _ => rfl

/-- A treatment of missing values does not change what an aggregate is taken for. -/
theorem readHaving_heeded (connector : Connector) (e : Expr) :
    readHaving connector e.heededHaving = readHaving connector e := by
  cases e with
  | binary left op right =>
    cases op with
    | compare c => cases left <;> rfl
    | _ => rfl
  | _ => rfl

theorem readSortTerm_heeded (t : OrderTerm) : readSortTerm t.heeded = readSortTerm t := by
  obtain ⟨e, descending, nullsFirst, marks⟩ := t
  cases e <;> rfl

theorem forM_map {α β : Type} (f : α → β) (step : β → Drafting Unit) (l : List α) :
    (l.map f).forM step = l.forM (step ∘ f) := by
  induction l with
  | nil => rfl
  | cons a l ih =>
    show (step (f a) >>= fun _ => (l.map f).forM step) = _
    rw [ih]
    rfl

theorem isEmpty_heededCtes (ctes : List CtePart) : (heededCtes ctes).isEmpty = ctes.isEmpty := by
  cases ctes with
  | nil => rfl
  | cons c rest => cases c; rfl

theorem heededSources_eq_nil {sources : List FromPart} :
    heededSources sources = [] ↔ sources = [] := by
  cases sources with
  | nil => simp [heededSources]
  | cons p rest => cases p; simp [heededSources]

theorem heededItems_eq_null {items : List SelectItem} :
    heededItems items = [.expr .null none] ↔ items = [.expr .null none] := by
  constructor
  · intro h
    match items with
    | [] => simp [heededItems] at h
    | .wildcard _ :: _ => simp [heededItems] at h
    | .tableWildcard _ _ :: _ => simp [heededItems] at h
    | .expr e named :: rest =>
      have hrest : ∀ {l : List SelectItem}, heededItems l = [] → l = [] := by
        intro l hl
        match l with
        | [] => rfl
        | .wildcard _ :: _ => simp [heededItems] at hl
        | .tableWildcard _ _ :: _ => simp [heededItems] at hl
        | .expr e _ :: _ => cases e <;> simp [heededItems] at hl
      cases e <;> simp_all [heededItems, Expr.heededCall]
  · rintro rfl
    rfl

/-- `SELECT NULL` with nothing else stays what it is, and nothing else becomes it. -/
theorem isEmptySelect_heeded (items : List SelectItem) (sources : List FromPart)
    (condition : Option Expr) (groupBy : List Expr) (having : Option Expr) (sx : SelectExtras)
    (orderBy : Option (List OrderTerm)) (limit : Option Expr) (b : Bool) :
    isEmptySelect (heededItems items) (heededSources sources) (heededWhere condition) groupBy
        (having.map Expr.heededHaving) (sx.heeded b) (orderBy.map (·.map OrderTerm.heeded)) limit =
      isEmptySelect items sources condition groupBy having sx orderBy limit := by
  have hall : (sx.heeded b).groupAll = sx.groupAll := by cases b <;> rfl
  have hcondition : heededWhere condition = none ↔ condition = none := by
    cases condition <;> simp [heededWhere]
  rw [Bool.eq_iff_iff, isEmptySelect_iff, isEmptySelect_iff, heededItems_eq_null,
    heededSources_eq_nil, hcondition, hall, Option.map_eq_none_iff, Option.map_eq_none_iff]

/-- Results are read off the heeded ones, be it a lone star or a list. -/
theorem readResults_heeded {items : List SelectItem}
    (h : readItems s (heededItems items) = readItems s items) :
    readResults s (heededItems items) = readResults s items := by
  match items with
  | [] => rfl
  | [.wildcard _] => rfl
  | .wildcard _ :: item :: _ =>
    cases item with
    | expr e _ => cases e <;> exact h
    | _ => exact h
  | .tableWildcard _ _ :: rest => exact h
  | .expr e named :: rest => cases e <;> exact h

theorem readHavings_heeded (having : Option Expr) :
    readHavings (having.map Expr.heededHaving) = readHavings having := by
  cases having with
  | none => rfl
  | some e =>
    simp only [readHavings, Option.map_some, Option.getD_some, conditions_heededHaving, forM_map]
    congr 1
    funext c
    exact readHaving_heeded c.2 c.1

theorem readSorting_heeded (orderBy : Option (List OrderTerm)) :
    readSorting (orderBy.map (·.map OrderTerm.heeded)) = readSorting orderBy := by
  cases orderBy with
  | none => rfl
  | some terms =>
    simp only [readSorting, Option.map_some, Option.getD_some, forM_map]
    congr 1
    funext t
    exact readSortTerm_heeded t

theorem heeded_offset (x : QueryExtras) : x.heeded.offset = x.offset := rfl

theorem heeded_fetch (x : QueryExtras) : x.heeded.fetch = x.fetch := rfl

/-- All clauses of a select, if its sources, its results and its condition are read alike. -/
theorem readSelect_heeded {items : List SelectItem} {sources : List FromPart}
    {condition : Option Expr} (groupBy : List Expr) (having : Option Expr) (sx : SelectExtras)
    (orderBy : Option (List OrderTerm)) (limit : Option Expr)
    (hsources : readSources s (heededSources sources) = readSources s sources)
    (hitems : readItems s (heededItems items) = readItems s items)
    (hcondition : readCondition s (heededWhere condition) = readCondition s condition) :
    readSelect s (heededItems items) (heededSources sources) (heededWhere condition) groupBy
        (having.map Expr.heededHaving) (sx.heeded false) (orderBy.map (·.map OrderTerm.heeded))
        limit =
      readSelect s items sources condition groupBy having sx orderBy limit := by
  unfold readSelect
  rw [hsources, readResults_heeded hitems, hcondition, readHavings_heeded, readSorting_heeded]
  rfl

mutual

theorem readBlock_heeded (s : Scope) (nested : Bool) :
    ∀ q : Query, readBlock s nested q.heeded = readBlock s nested q
  | .mk recursive ctes (.other form text) orderBy limit x => by
    rw [Query.heeded, readBlock_other, readBlock_other, isEmpty_heededCtes, heeded_offset,
      heeded_fetch]
  | .mk recursive ctes (.select items sources condition groupBy having sx) orderBy limit x => by
    have hselect := readSelect_heeded groupBy having sx orderBy limit
      (readSources_heeded s sources) (readItems_heeded s items) (readCondition_heeded s condition)
    rw [Query.heeded, readBlock_select, readBlock_select, isEmptySelect_heeded,
      isEmpty_heededCtes, heeded_offset, heeded_fetch]
    cases isEmptySelect items sources condition groupBy having sx orderBy limit with
    | true => simp only [if_true]
    | false => simp only [Bool.false_eq_true, if_false, hselect]

theorem readSources_heeded (s : Scope) :
    ∀ l : List FromPart, readSources s (heededSources l) = readSources s l
  | [] => rfl
  | .mk source joins :: rest => by
    simp only [heededSources, readSources, readSource_heeded s source, readJoins_heeded s joins,
      readSources_heeded s rest]

theorem readJoins_heeded (s : Scope) :
    ∀ l : List JoinClause, readJoins s (heededJoins l) = readJoins s l
  | [] => rfl
  | .mk _ op source constraint :: rest => by
    simp only [heededJoins, readJoins, readSource_heeded s source, readJoins_heeded s rest]

theorem readSource_heeded (s : Scope) :
    ∀ source : Source, readSource s source.heeded = readSource s source
  | .table name arguments named _ => rfl
  | .derived lateral q named => by
    simp only [Source.heeded, readSource, readBlock_heeded s true q]
  | .joined _ => rfl
  | .other _ => rfl

theorem readItems_heeded (s : Scope) :
    ∀ l : List SelectItem, readItems s (heededItems l) = readItems s l
  | [] => rfl
  | .wildcard _ :: _ => rfl
  | .tableWildcard table _ :: rest => by
    simp only [heededItems, readItems, readItems_heeded s rest]
  | .expr e named :: rest => by
    have hrest := readItems_heeded s rest
    cases e with
    | subquery q => simp only [heededItems, readItems, hrest, readBlock_heeded s true q]
    | _ =>
      simp only [heededItems, Expr.heededCall, readItems, hrest]
      try rfl

theorem readCondition_heeded (s : Scope) :
    ∀ condition, readCondition s (heededWhere condition) = readCondition s condition
  | none => rfl
  | some e => readFilters_heeded s .and e

theorem readFilters_heeded (s : Scope) :
    ∀ (last : Connector) (e : Expr), readFilters s last e.heededCondition = readFilters s last e
  | last, .binary left op right => by
    cases op with
    | and =>
      simp only [Expr.heededCondition, readFilters, readFilters_heeded s _ left,
        readFilters_heeded s _ right]
    | or =>
      simp only [Expr.heededCondition, readFilters, readFilters_heeded s _ left,
        readFilters_heeded s _ right]
    | _ =>
      cases right with
      | subquery q => simp only [Expr.heededCondition, readFilters, readBlock_heeded s true q]
      | _ => rfl
  | last, .inQuery subject negated q => by
    simp only [Expr.heededCondition, readFilters, readBlock_heeded s true q]
  | _, .like _ _ _ _ _ _ | _, .column _ | _, .number _ _ | _, .text _ | _, .null | _, .nested _
  | _, .subquery _ | _, .signed _ _ | _, .test _ _ | _, .inList _ _ _ | _, .between _ _ _ _
  | _, .call _ _ _ _ | _, .other _ => rfl

end

theorem readCtes_heeded (catalog : Catalog) :
    ∀ (parts : List CtePart) (known : List Cte),
      readCtes catalog known (heededCtes parts) = readCtes catalog known parts
  | [], _ => rfl
  | .mk named _ q _ :: rest, known => by
    simp only [heededCtes, readCtes, readBlock_heeded, readCtes_heeded catalog rest]

/-- What is not heeded changes nothing. -/
theorem readCanvas_heeded (catalog : Catalog) (q : Query) :
    readCanvas catalog q.heeded = readCanvas catalog q := by
  obtain ⟨recursive, ctes, body, orderBy, limit, x⟩ := q
  have hroot := fun known => readBlock_heeded { catalog, ctes := known } false
    (.mk recursive ctes body orderBy limit x)
  cases body with
  | select items sources condition groupBy having sx =>
    simp only [Query.heeded, readCanvas, readCtes_heeded] at hroot ⊢
    simp only [hroot]
  | other form text =>
    simp only [Query.heeded, readCanvas, readCtes_heeded] at hroot ⊢
    simp only [hroot]

end QueryCanvas.Sql
