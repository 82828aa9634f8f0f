import QueryCanvas.Proofs.Reading.Heeded
import QueryCanvas.Proofs.Reading.Refused

/-!
# What is lost when a canvas is read off a query

A query from which a canvas is read has none of the constructs without a place on the canvas, as far
as it is heeded.  So nothing of it is lost exactly if all of it is heeded.
-/

set_option autoImplicit false

namespace QueryCanvas.Sql

variable {s : Scope} {n n' : Nat} {d d' : Draft}

/-! ## What is plain once it is heeded -/

theorem plainCall_heeded (e : Expr) : e.heededCall.PlainCall := by
  cases e <;> simp [Expr.heededCall, Expr.PlainCall]

theorem plainHaving_heeded : ∀ e : Expr, e.heededHaving.PlainHaving
  | .binary left op right => by
    cases op with
    | and => exact ⟨plainHaving_heeded left, plainHaving_heeded right⟩
    | or => exact ⟨plainHaving_heeded left, plainHaving_heeded right⟩
    | _ => exact plainCall_heeded left
  | .column _ | .number _ _ | .text _ | .null | .nested _ | .subquery _ | .signed _ _
  | .like _ _ _ _ _ _ | .test _ _ | .inList _ _ _ | .inQuery _ _ _ | .between _ _ _ _
  | .call _ _ _ _ | .other _ => trivial

/-- A term by which rows are sorted says nothing about missing values. -/
theorem sortTerm_plain {t : OrderTerm} (h : Goes (readSortTerm t) n d () n' d') :
    t.heeded.Plain := by
  obtain ⟨e, descending, nullsFirst, marks⟩ := t
  simp only [readSortTerm, Goes.guard_iff, Bool.not_eq_true, Option.isSome_eq_false_iff,
    Option.isNone_iff_eq_none] at h
  exact ⟨h.1, plainCall_heeded e⟩

theorem sorting_plain {orderBy : Option (List OrderTerm)}
    (h : Goes (readSorting orderBy) n d () n' d') :
    ∀ t ∈ (orderBy.map (·.map OrderTerm.heeded)).getD [], t.Plain := by
  have hterms : ∀ t ∈ orderBy.getD [], t.heeded.Plain :=
    Goes.forM_forall (fun _ _ _ _ _ => sortTerm_plain) h
  cases orderBy with
  | none => simp
  | some terms => simpa using hterms

/-- The clauses that are refused are not there, and the others of a select are not heeded. -/
theorem SelectExtras.Accepted.plain {sx : SelectExtras} (h : sx.Accepted) :
    (sx.heeded false).Plain :=
  ⟨h.distinct, h.top, h.into, h.lateralViews, h.windows, h.qualify, rfl, rfl⟩

theorem plain_heeded_empty (sx : SelectExtras) : (sx.heeded true).Plain :=
  ⟨rfl, rfl, rfl, rfl, rfl, rfl, rfl, rfl⟩

theorem QueryExtras.plain_heeded {x : QueryExtras} (hoffset : x.offset = .none)
    (hfetch : x.fetch = .none) : x.heeded.Plain :=
  ⟨hoffset, hfetch, rfl, rfl⟩

/-- Results that can be read are plain, be it a lone star or a list. -/
theorem readResults_plain {l : List SelectItem}
    (hitems : Goes (readItems s l) n d () n' d' → PlainItems (heededItems l))
    (h : Goes (readResults s l) n d () n' d') : PlainItems (heededItems l) := by
  rcases goes_readResults.1 h with ⟨⟨options, rfl⟩, -⟩ | h
  · exact ⟨rfl, trivial⟩
  · exact hitems h

/-! ## What can be read is plain -/

mutual

/-- A query off which a block is read, if its named queries are plain. -/
theorem readBlock_plain (s : Scope) (nested : Bool) : ∀ (q : Query) {n n' : Nat} {b : Block},
    Gives (readBlock s nested q) n b n' → (nested = false → PlainCtes (heededCtes q.ctes)) →
      q.heeded.Plain
  | .mk _ _ (.other _ _) _ _ _, _, _, _, h, _ => absurd h gives_readBlock_other
  | .mk recursive ctes (.select items sources condition groupBy having sx) orderBy limit x,
      n, n', b, h, hctes => by
    obtain ⟨hnested, hoffset, hfetch, hselect⟩ := gives_readBlock_select.1 h
    have hplain : PlainCtes (heededCtes ctes) := by
      cases nested with
      | true =>
        rw [hnested rfl]
        trivial
      | false => exact hctes rfl
    have hhaving : ∀ e ∈ having.map Expr.heededHaving, e.PlainHaving := by
      cases having with
      | none => simp
      | some e => simpa using plainHaving_heeded e
    refine ⟨QueryExtras.plain_heeded hoffset hfetch, hplain, ?_⟩
    split at hselect
    · rename_i hempty
      rw [hempty]
      obtain ⟨rfl, rfl, rfl, rfl, rfl, -, rfl, rfl⟩ := isEmptySelect_iff.1 hempty
      exact ⟨⟨plain_heeded_empty sx, ⟨trivial, trivial⟩, trivial, trivial, hhaving⟩, by simp⟩
    · rename_i hfull
      rw [Bool.not_eq_true] at hfull
      rw [hfull]
      obtain ⟨d, hgoes, rfl⟩ := hselect
      obtain ⟨haccepted, _, _, hsources, _, _, hresults, _, _, hcondition, _, _, -, _, _, -, _, _,
        hsorting, -⟩ := goes_readSelect.1 hgoes
      exact ⟨⟨haccepted.plain, readResults_plain (readItems_plain s items) hresults,
        readSources_plain s sources hsources, readCondition_plain s condition hcondition, hhaving⟩,
        sorting_plain hsorting⟩

theorem readSources_plain (s : Scope) : ∀ (l : List FromPart) {n n' : Nat} {d d' : Draft},
    Goes (readSources s l) n d () n' d' → PlainSources (heededSources l)
  | [], _, _, _, _, _ => trivial
  | .mk source joins :: rest, _, _, _, _, h => by
    obtain ⟨_, _, _, hsource, _, _, hjoins, hrest⟩ := goes_readSources_cons.1 h
    exact ⟨readSource_plain s source hsource, readJoins_plain s joins hjoins,
      readSources_plain s rest hrest⟩

theorem readJoins_plain (s : Scope) : ∀ (l : List JoinClause) {n n' : Nat} {d d' : Draft},
    Goes (readJoins s l) n d () n' d' → PlainJoins (heededJoins l)
  | [], _, _, _, _, _ => trivial
  | .mk _ op source constraint :: rest, _, _, _, _, h => by
    obtain ⟨_, _, hjoin, hrest⟩ := goes_readJoins_cons.1 h
    refine ⟨?_, readJoins_plain s rest hrest⟩
    cases op with
    | cross =>
      obtain ⟨_, _, _, hsource, -⟩ := Goes.bind_iff.1 hjoin
      exact readSource_plain s source hsource
    | kind kind =>
      obtain ⟨_, _, _, hsource, -⟩ := Goes.bind_iff.1 hjoin
      exact readSource_plain s source hsource
    | other text => exact absurd hjoin Goes.refuse_iff

theorem readSource_plain (s : Scope) : ∀ (source : Source) {n n' : Nat} {d d' : Draft}
    {joined : Option EntityId}, Goes (readSource s source) n d joined n' d' → source.heeded.Plain
  | .table _ _ _ _, _, _, _, _, _, _ => rfl
  | .derived lateral q named, _, _, _, _, _, h => by
    simp only [readSource, Goes.guard_iff, Goes.bind_iff, Goes.lift_iff] at h
    obtain ⟨-, _, _, _, ⟨hread, -⟩, -⟩ := h
    exact readBlock_plain s true q hread nofun
  | .joined _, _, _, _, _, _, _ => trivial
  | .other _, _, _, _, _, _, _ => trivial

theorem readItems_plain (s : Scope) : ∀ (l : List SelectItem) {n n' : Nat} {d d' : Draft},
    Goes (readItems s l) n d () n' d' → PlainItems (heededItems l)
  | [], _, _, _, _, _ => trivial
  | .wildcard _ :: _, _, _, _, _, h => absurd h Goes.refuse_iff
  | .tableWildcard table _ :: rest, _, _, _, _, h => by
    obtain ⟨_, _, -, hrest⟩ := Goes.then_iff.1 h
    exact ⟨rfl, readItems_plain s rest hrest⟩
  | .expr e named :: rest, _, _, _, _, h => by
    obtain ⟨_, _, hitem, hrest⟩ := goes_readItems_expr.1 h
    have hplain := readItems_plain s rest hrest
    cases e with
    | subquery q =>
      simp only [readItem, Goes.bind_iff, Goes.lift_iff] at hitem
      obtain ⟨_, _, _, ⟨hread, -⟩, -⟩ := hitem
      exact ⟨readBlock_plain s true q hread nofun, hplain⟩
    | call name parameters arguments tail => exact ⟨rfl, hplain⟩
    | _ => exact ⟨trivial, hplain⟩

theorem readCondition_plain (s : Scope) : ∀ (condition : Option Expr) {n n' : Nat} {d d' : Draft},
    Goes (readCondition s condition) n d () n' d' → PlainWhere (heededWhere condition)
  | none, _, _, _, _, _ => trivial
  | some e, _, _, _, _, h => readFilters_plain s .and e h

theorem readFilters_plain (s : Scope) : ∀ (last : Connector) (e : Expr) {n n' : Nat} {d d' : Draft},
    Goes (readFilters s last e) n d () n' d' → e.heededCondition.PlainCondition
  | last, .binary left op right, _, _, _, _, h => by
    cases op with
    | and =>
      simp only [readFilters, Goes.bind_iff] at h
      obtain ⟨_, _, _, hleft, hright⟩ := h
      exact ⟨readFilters_plain s _ left hleft, readFilters_plain s _ right hright⟩
    | or =>
      simp only [readFilters, Goes.bind_iff] at h
      obtain ⟨_, _, _, hleft, hright⟩ := h
      exact ⟨readFilters_plain s _ left hleft, readFilters_plain s _ right hright⟩
    | compare c =>
      cases right with
      | subquery q =>
        simp only [readFilters, filterOperator?, Goes.bind_iff, Goes.lift_iff] at h
        obtain ⟨_, _, _, -, _, _, _, ⟨hread, -⟩, -⟩ := h
        exact readBlock_plain s true q hread nofun
      | _ => trivial
    | other text =>
      cases right with
      | subquery q => exact absurd h Goes.refuse_iff
      | _ => trivial
  | last, .inQuery subject negated q, _, _, _, _, h => by
    simp only [readFilters, Goes.bind_iff, Goes.lift_iff] at h
    obtain ⟨_, _, _, -, _, _, _, ⟨hread, -⟩, -⟩ := h
    exact readBlock_plain s true q hread nofun
  | _, .like _ _ _ _ _ _, _, _, _, _, _ => rfl
  | _, .column _, _, _, _, _, _ | _, .number _ _, _, _, _, _, _ | _, .text _, _, _, _, _, _
  | _, .null, _, _, _, _, _ | _, .nested _, _, _, _, _, _ | _, .subquery _, _, _, _, _, _
  | _, .signed _ _, _, _, _, _, _ | _, .test _ _, _, _, _, _, _ | _, .inList _ _ _, _, _, _, _, _
  | _, .between _ _ _ _, _, _, _, _, _ | _, .call _ _ _ _, _, _, _, _, _
  | _, .other _, _, _, _, _, _ => trivial

end

/-! ## All of a plain query is heeded -/

theorem Expr.PlainCall.heeded {e : Expr} (h : e.PlainCall) : e.heededCall = e := by
  cases e with
  | call name parameters arguments tail =>
    obtain ⟨withinGroup, filter, nullTreatment, window⟩ := tail
    cases h
    rfl
  | _ => rfl

theorem Expr.PlainHaving.heeded : ∀ {e : Expr}, e.PlainHaving → e.heededHaving = e
  | .binary left op right, h => by
    cases op with
    | and =>
      obtain ⟨hleft, hright⟩ := h
      rw [Expr.heededHaving, PlainHaving.heeded hleft, PlainHaving.heeded hright]
    | or =>
      obtain ⟨hleft, hright⟩ := h
      rw [Expr.heededHaving, PlainHaving.heeded hleft, PlainHaving.heeded hright]
    | compare c => exact congrArg (Expr.binary · (.compare c) right) (PlainCall.heeded h)
    | other text => exact congrArg (Expr.binary · (.other text) right) (PlainCall.heeded h)
  | .column _, _ | .number _ _, _ | .text _, _ | .null, _ | .nested _, _ | .subquery _, _
  | .signed _ _, _ | .like _ _ _ _ _ _, _ | .test _ _, _ | .inList _ _ _, _ | .inQuery _ _ _, _
  | .between _ _ _ _, _ | .call _ _ _ _, _ | .other _, _ => rfl

theorem OrderTerm.Plain.heeded {t : OrderTerm} (h : t.Plain) : t.heeded = t := by
  obtain ⟨e, descending, nullsFirst, marks⟩ := t
  rw [OrderTerm.heeded, Expr.PlainCall.heeded h.2]

theorem SelectExtras.Plain.heeded {sx : SelectExtras} (h : sx.Plain) (empty : Bool) :
    sx.heeded empty = sx := by
  obtain ⟨h₁, h₂, h₃, h₄, h₅, h₆, h₇, h₈⟩ := h
  cases sx
  cases empty <;> simp_all [SelectExtras.heeded]

theorem QueryExtras.Plain.heeded {x : QueryExtras} (h : x.Plain) : x.heeded = x := by
  obtain ⟨-, -, hlimitBy, hlocks⟩ := h
  cases x
  simp_all [QueryExtras.heeded]

theorem heededHaving_eq {having : Option Expr} (h : ∀ e ∈ having, e.PlainHaving) :
    having.map Expr.heededHaving = having := by
  cases having with
  | none => rfl
  | some e => exact congrArg some (h e rfl).heeded

theorem heededSorting_eq {orderBy : Option (List OrderTerm)}
    (h : ∀ t ∈ orderBy.getD [], t.Plain) : orderBy.map (·.map OrderTerm.heeded) = orderBy := by
  cases orderBy with
  | none => rfl
  | some terms =>
    have hterms : terms.map OrderTerm.heeded = terms.map id :=
      List.map_congr_left fun t ht => (h t ht).heeded
    rw [Option.map_some, hterms, List.map_id]

mutual

theorem Query.Plain.heeded : ∀ {q : Query}, q.Plain → q.heeded = q
  | .mk _ _ (.select _ _ _ _ _ _) _ _ _,
      ⟨hx, hctes, ⟨hsx, hitems, hsources, hwhere, hhaving⟩, horder⟩ => by
    rw [Query.heeded, heededCtes_eq hctes, heededItems_eq hitems, heededSources_eq hsources,
      heededWhere_eq hwhere, heededHaving_eq hhaving, hsx.heeded, heededSorting_eq horder,
      hx.heeded]
  | .mk _ _ (.other _ _) _ _ _, ⟨hx, hctes, _, horder⟩ => by
    rw [Query.heeded, heededCtes_eq hctes, heededSorting_eq horder, hx.heeded]

theorem heededCtes_eq : ∀ {l : List CtePart}, PlainCtes l → heededCtes l = l
  | [], _ => rfl
  | .mk _ _ _ _ :: _, ⟨hmaterialized, hq, hrest⟩ => by
    rw [heededCtes, hmaterialized, hq.heeded, heededCtes_eq hrest]

theorem heededItems_eq : ∀ {l : List SelectItem}, PlainItems l → heededItems l = l
  | [], _ => rfl
  | .wildcard _ :: _, ⟨hoptions, hrest⟩ => by rw [heededItems, hoptions, heededItems_eq hrest]
  | .tableWildcard _ _ :: _, ⟨hoptions, hrest⟩ => by
    rw [heededItems, hoptions, heededItems_eq hrest]
  | .expr e _ :: _, h => by
    cases e with
    | subquery q => rw [heededItems, h.1.heeded, heededItems_eq h.2]
    | call name parameters arguments tail =>
      rw [heededItems, Expr.PlainCall.heeded h.1, heededItems_eq h.2]
      nofun
    | _ => simp only [heededItems, Expr.heededCall, heededItems_eq h.2]

theorem heededSources_eq : ∀ {l : List FromPart}, PlainSources l → heededSources l = l
  | [], _ => rfl
  | .mk _ _ :: _, ⟨hsource, hjoins, hrest⟩ => by
    rw [heededSources, hsource.heeded, heededJoins_eq hjoins, heededSources_eq hrest]

theorem heededJoins_eq : ∀ {l : List JoinClause}, PlainJoins l → heededJoins l = l
  | [], _ => rfl
  | .mk _ _ _ _ :: _, ⟨hsource, hrest⟩ => by
    rw [heededJoins, hsource.heeded, heededJoins_eq hrest]

theorem Source.Plain.heeded : ∀ {source : Source}, source.Plain → source.heeded = source
  | .table _ _ _ _, h => by rw [Source.heeded, show _ = ("", "") from h]
  | .derived _ _ _, h => by rw [Source.heeded, Query.Plain.heeded h]
  | .joined _, _ => rfl
  | .other _, _ => rfl

theorem heededWhere_eq : ∀ {condition : Option Expr}, PlainWhere condition →
    heededWhere condition = condition
  | none, _ => rfl
  | some _, h => congrArg some (Expr.PlainCondition.heeded h)

theorem Expr.PlainCondition.heeded : ∀ {e : Expr}, e.PlainCondition → e.heededCondition = e
  | .binary left op right, h => by
    cases op with
    | and =>
      obtain ⟨hleft, hright⟩ := h
      rw [Expr.heededCondition, Expr.PlainCondition.heeded hleft,
        Expr.PlainCondition.heeded hright]
    | or =>
      obtain ⟨hleft, hright⟩ := h
      rw [Expr.heededCondition, Expr.PlainCondition.heeded hleft,
        Expr.PlainCondition.heeded hright]
    | compare c =>
      cases right with
      | subquery q =>
        exact congrArg (fun q => Expr.binary left (.compare c) (.subquery q))
          (Query.Plain.heeded h)
      | _ => rfl
    | other text =>
      cases right with
      | subquery q =>
        exact congrArg (fun q => Expr.binary left (.other text) (.subquery q))
          (Query.Plain.heeded h)
      | _ => rfl
  | .inQuery subject negated q, h => congrArg (Expr.inQuery subject negated) (Query.Plain.heeded h)
  | .like _ _ _ _ _ _, h => by rw [Expr.heededCondition, show _ = false from h]
  | .column _, _ | .number _ _, _ | .text _, _ | .null, _ | .nested _, _ | .subquery _, _
  | .signed _ _, _ | .test _ _, _ | .inList _ _ _, _ | .between _ _ _ _, _ | .call _ _ _ _, _
  | .other _, _ => rfl

end

/-! ## Canvases -/

theorem readCtes_plain (catalog : Catalog) : ∀ {parts : List CtePart} {known ctes : List Cte}
    {n n' : Nat}, Gives (readCtes catalog known parts) n ctes n' → PlainCtes (heededCtes parts)
  | [], _, _, _, _, _ => trivial
  | .mk named _ q _ :: rest, known, _, _, _, h => by
    simp only [readCtes, Gives.guard_iff, Gives.bind_iff] at h
    obtain ⟨-, -, _, _, hread, _, _, -, hrest⟩ := h
    exact ⟨rfl, readBlock_plain _ true q hread nofun, readCtes_plain catalog hrest⟩

theorem readCanvas_plain {catalog : Catalog} {q : Query} {c : Canvas}
    (h : Gives (readCanvas catalog q) n c n') : q.heeded.Plain := by
  obtain ⟨recursive, ctes, body, orderBy, limit, x⟩ := q
  simp only [readCanvas, Gives.guard_iff, Gives.bind_iff] at h
  obtain ⟨-, _, _, hctes, _, _, hroot, -⟩ := h
  exact readBlock_plain _ false _ hroot fun _ => readCtes_plain catalog hctes

/-- A canvas is read off a query or something in it is refused.  If a canvas is read, then it is the
canvas of what is heeded of the query, which has none of the constructs without a place on the
canvas; so the query has none of them either exactly if all of it is heeded. -/
theorem nothing_dropped_iff (catalog : Catalog) (q : Query) (n : Nat) :
    (∃ construct n', (readCanvas catalog q).run n = (.error (.unsupported construct), n')) ∨
      ∃ c n', Gives (readCanvas catalog q) n c n' ∧ Gives (readCanvas catalog q.heeded) n c n' ∧
        q.heeded.Plain ∧ (q.Plain ↔ q.heeded = q) := by
  have hrefused := readCanvas_refuses catalog q n
  rcases hrun : (readCanvas catalog q).run n with ⟨e | c, n'⟩
  · rw [hrun] at hrefused
    obtain ⟨construct, rfl, -⟩ := hrefused e rfl
    exact .inl ⟨construct, n', rfl⟩
  · have hplain := readCanvas_plain hrun
    refine .inr ⟨c, n', hrun, ?_, hplain, Query.Plain.heeded, fun heq => heq ▸ hplain⟩
    rw [readCanvas_heeded]
    exact hrun

/-- What a query has behind its body. -/
def Query.extras : Query → QueryExtras
  | .mk _ _ _ _ _ x => x

theorem Query.Plain.extras : ∀ {q : Query}, q.Plain → q.extras.Plain
  | .mk _ _ _ _ _ _, h => h.1

/-- A canvas is read off a query that locks rows, and the lock is gone. -/
theorem row_lock_dropped :
    ∃ q c n', Query.parse .generic "SELECT t.a FROM t FOR UPDATE" = .ok q ∧
      Gives (readCanvas .empty q) 0 c n' ∧ ¬q.Plain := by
  have hread : ((readText .generic .empty "SELECT t.a FROM t FOR UPDATE").run 0).1.isOk = true := by
    decide +kernel
  have hlocks : (Query.parse .generic "SELECT t.a FROM t FOR UPDATE").toOption.map
      (·.extras.locks) = some ["FOR UPDATE"] := by decide +kernel
  obtain ⟨c, n', htext⟩ := Gives.of_isOk hread
  obtain ⟨q, hparse, hcanvas⟩ := gives_readText.1 htext
  refine ⟨q, c, n', hparse, hcanvas, fun hplain => ?_⟩
  rw [hparse] at hlocks
  have hnone : q.extras.locks = ["FOR UPDATE"] := Option.some.inj hlocks
  rw [hplain.extras.locks] at hnone
  cases hnone

end QueryCanvas.Sql
