import QueryCanvas.Diagnosis
import QueryCanvas.Proofs.Arrangement.Once

/-!
# Findings on joins

A join is written as it is drawn if it leads to two tables that are there and is a condition of a
step of its own kind.  The diagnosis has a finding on a join exactly if it is not written so: an end
of it is missing, or it ties a table to itself, or the step that carries it has another kind.  All
other findings are about other things, which their first letters show.
-/

set_option autoImplicit false

namespace QueryCanvas

open Sql

theorem JoinKind.keyword_injective : Function.Injective keyword := by
  intro k k' h
  cases k <;> cases k' <;> first | rfl | exact absurd h (by decide)

namespace Finding

variable {f : Finding} {id id' : EntityId} {own own' written written' : JoinKind}

/-- The finding on a join with an end that is not there. -/
def missingEnd (id : EntityId) : Finding := .error "join endpoint is missing" id

/-- The finding on a join of a table with itself. -/
def selfJoin (id : EntityId) : Finding :=
  .warning "join connects a table to itself and is not rendered" id

/-- The finding on a join that is written as one of another kind. -/
def otherKind (own written : JoinKind) (id : EntityId) : Finding :=
  .warning (own.keyword ++ " is rendered as " ++ written.keyword ++ ", the join it is ANDed onto")
    id

/-- The finding is one on a join, and carries the identifier. -/
inductive OnJoin (id : EntityId) : Finding → Prop
  | missingEnd : OnJoin id (missingEnd id)
  | selfJoin : OnJoin id (selfJoin id)
  | otherKind (own written : JoinKind) : OnJoin id (otherKind own written id)

/-! ## First letters -/

/-- The first letter of a finding on an entity. -/
def lead? (f : Finding) : Option Char := f.entity.bind fun _ => f.message.toList.head?

theorem lead?_error {message : String} {c : Char} (h : message.toList.head? = some c) :
    (error message id).lead? = some c := h

theorem lead?_warning {message : String} {c : Char} (h : message.toList.head? = some c) :
    (warning message id).lead? = some c := h

/-- The first letter of a text that goes on behind a given beginning. -/
theorem head?_append {first : String} {c : Char} (h : first.toList.head? = some c)
    (rest : String) : (first ++ rest).toList.head? = some c := by
  rw [String.toList_append, List.head?_append, h]
  rfl

/-- The first letter of the words of a join. -/
def kindLead : JoinKind → Char
  | .inner => 'I'
  | .left => 'L'
  | .right => 'R'
  | .full => 'F'

theorem lead?_otherKind (own written : JoinKind) (id : EntityId) :
    (otherKind own written id).lead? = some (kindLead own) := by
  have hfirst : own.keyword.toList.head? = some (kindLead own) := by cases own <;> decide
  exact lead?_warning (head?_append (head?_append (head?_append hfirst _) _) _)

theorem OnJoin.lead? (h : OnJoin id f) : f.lead? ∈ ['j', 'I', 'L', 'R', 'F'].map some := by
  cases h with
  | missingEnd =>
    rw [show (Finding.missingEnd id).lead? = some 'j' from lead?_error (by decide)]
    decide
  | selfJoin =>
    rw [show (Finding.selfJoin id).lead? = some 'j' from lead?_warning (by decide)]
    decide
  | otherKind own written =>
    rw [lead?_otherKind]
    cases own <;> decide

theorem OnJoin.entity (h : OnJoin id f) : f.entity = some id := by
  cases h <;> rfl

/-- The finding tells both kinds and the join. -/
theorem otherKind_inj (h : otherKind own written id = otherKind own' written' id') :
    own = own' ∧ written = written' ∧ id = id' := by
  have hlead := congrArg Finding.lead? h
  rw [lead?_otherKind, lead?_otherKind] at hlead
  have hown : own = own' := by
    cases own <;> cases own' <;> first | rfl | exact absurd hlead (by decide)
  subst hown
  simp only [otherKind, warning, Finding.mk.injEq, true_and, Option.some.injEq] at h
  have hmessage := congrArg String.toList h.1
  simp only [String.toList_append, List.append_assoc, List.append_cancel_left_eq,
    List.append_cancel_right_eq, String.toList_inj] at hmessage
  exact ⟨rfl, JoinKind.keyword_injective hmessage, h.2⟩

end Finding

namespace Diagnosis

open Finding

variable {c : Canvas} {b : Block} {f : Finding} {id : EntityId}

/-! ## Findings on other things -/

theorem lead?_cteNames {before : List String} {ctes : List Cte} (h : f ∈ cteNames before ctes) :
    f.lead? = some 'C' := by
  induction ctes generalizing before with
  | nil => cases h
  | cons q rest ih =>
    rw [cteNames] at h
    split at h
    · rcases List.mem_cons.1 h with rfl | h
      · exact lead?_error (by decide)
      · exact ih h
    · split at h
      · rcases List.mem_cons.1 h with rfl | h
        · exact lead?_error (head?_append (head?_append (by decide) _) _)
        · exact ih h
      · exact ih h

theorem lead?_tables (h : f ∈ tables c b) : f.lead? = some 't' := by
  obtain ⟨t, -, hf⟩ := List.mem_filterMap.1 h
  split at hf
  · cases hf
    exact lead?_error (head?_append (head?_append (by decide) _) _)
  · cases hf

theorem lead?_column {clause name : String} (letter : Char)
    (hclause : clause.toList.head? = some letter) (h : f ∈ column b clause name id) :
    f.lead? = some letter := by
  unfold column at h
  split at h
  · cases h
  · rw [List.mem_singleton.1 h]
    exact lead?_warning (head?_append (head?_append (head?_append hclause _) _) _)

theorem lead?_filter {g : Filter} (h : f ∈ filter b g) : f.lead? = some 'f' := by
  rcases List.mem_append.1 h with h | h
  · exact lead?_column 'f' (by decide) h
  · split at h
    · rw [List.mem_singleton.1 h]
      exact lead?_error (by decide)
    · cases h

theorem lead?_subquery {s : Subquery} (h : f ∈ subquery b s) :
    f.lead? = some 'W' ∨ f.lead? = some 's' := by
  rcases List.mem_append.1 h with h | h
  · split at h
    · rw [List.mem_singleton.1 h]
      exact .inl (lead?_warning (by decide))
    · cases h
  · split at h
    · rw [List.mem_singleton.1 h]
      exact .inr (lead?_warning (by decide))
    · cases h

theorem lead?_limit {l : Option Limit} (h : f ∈ limit l) : f.lead? = none := by
  unfold limit at h
  split at h
  · split at h
    · cases h
    · rw [List.mem_singleton.1 h]
      rfl
  · cases h

/-- The findings on the joins of a block. -/
theorem mem_block_of_onJoin (hf : OnJoin id f) (h : f ∈ block c b) :
    f ∈ joins b ∨ f ∈ joinKinds b := by
  have hlead := hf.lead?
  have hother {letter : Option Char} (h : f.lead? = letter)
      (hnot : letter ∉ ['j', 'I', 'L', 'R', 'F'].map some) : False := hnot (h ▸ hlead)
  simp only [block, List.mem_append, List.mem_flatMap] at h
  rcases h with
    ((((((((h | h) | h) | ⟨g, -, h⟩) | ⟨g, -, h⟩) | ⟨g, -, h⟩) | ⟨g, -, h⟩) | ⟨g, -, h⟩) | h)
  · exact (hother (lead?_tables h) (by decide)).elim
  · exact .inl h
  · exact .inr h
  · exact (hother (lead?_filter h) (by decide)).elim
  · exact (hother (lead?_column 'G' (by decide) h) (by decide)).elim
  · exact (hother (lead?_column 'H' (by decide) h) (by decide)).elim
  · exact (hother (lead?_column 'O' (by decide) h) (by decide)).elim
  · rcases lead?_subquery h with h | h
    · exact (hother h (by decide)).elim
    · exact (hother h (by decide)).elim
  · exact (hother (lead?_limit h) (by decide)).elim

/-! ## Findings on joins -/

theorem mem_joins_iff : f ∈ joins b ↔ ∃ j ∈ b.joins,
    (link? b j = none ∧ f = missingEnd j.id) ∨
      ∃ l, link? b j = some l ∧ l.source.id = l.target.id ∧ f = selfJoin j.id := by
  unfold joins
  rw [List.mem_filterMap]
  refine exists_congr fun j => and_congr_right fun _ => ?_
  cases hsource : b.table? j.sourceTable with
  | none => simp [link?, hsource, missingEnd, eq_comm]
  | some source =>
    cases htarget : b.table? j.targetTable with
    | none => simp [link?, hsource, htarget, missingEnd, eq_comm]
    | some target =>
      have hs : source.id = j.sourceTable := by simpa using List.find?_some hsource
      have ht : target.id = j.targetTable := by simpa using List.find?_some htarget
      by_cases hself : j.sourceTable = j.targetTable
      · simp [link?, htarget, hself, selfJoin, eq_comm]
      · have hdistinct : source.id ≠ target.id := by rwa [hs, ht]
        simp [link?, hsource, htarget, hself, hdistinct]

theorem mem_joinKinds_iff : f ∈ joinKinds b ↔ ∃ s ∈ steps (fromItems b), ∃ j ∈ s.conditions,
    j.kind ≠ s.kind ∧ f = otherKind j.kind s.kind j.id := by
  have hoverridden : overriddenJoins b = (steps (fromItems b)).flatMap fun s =>
      (s.conditions.filter (·.kind ≠ s.kind)).map (·, s.kind) := by
    rw [overriddenJoins, steps, List.flatMap_assoc]
  simp only [joinKinds, hoverridden, List.mem_map, List.mem_flatMap, List.mem_filter,
    decide_eq_true_eq]
  constructor
  · rintro ⟨_, ⟨s, hs, j, ⟨hj, hkind⟩, rfl⟩, rfl⟩
    exact ⟨s, hs, j, hj, hkind, rfl⟩
  · rintro ⟨s, hs, j, hj, hkind, rfl⟩
    exact ⟨(j, s.kind), ⟨s, hs, j, ⟨hj, hkind⟩, rfl⟩, rfl⟩

end Diagnosis

/-- The findings on a canvas are those on its named queries and those on its blocks. -/
theorem Canvas.mem_diagnose {c : Canvas} {f : Finding} :
    f ∈ c.diagnose ↔
      f ∈ Diagnosis.cteNames [] c.ctes ∨ ∃ b ∈ c.blocks, f ∈ Diagnosis.block c b := by
  simp only [diagnose, List.mem_append, List.mem_filter, List.mem_flatMap, decide_eq_true_eq,
    ← and_or_left]
  refine and_iff_left ?_
  cases f.severity
  · exact .inr rfl
  · exact .inl rfl

/-- The join leads to two tables that are there and is a condition of a step of its own kind. -/
def Block.WritesAsDrawn (b : Block) (j : Join) : Prop :=
  (link? b j).isSome ∧ ∃ s ∈ steps (fromItems b), j ∈ s.conditions ∧ s.kind = j.kind

namespace Canvas

open Finding

variable {c : Canvas} {b b' : Block} {j j' : Join} {f : Finding}

/-- Where no identifier of a join repeats, it tells the block and the join. -/
theorem eq_of_join_id (hjoins : ((c.blocks.flatMap (·.joins)).map (·.id)).Nodup)
    (hb : b ∈ c.blocks) (hj : j ∈ b.joins) (hb' : b' ∈ c.blocks) (hj' : j' ∈ b'.joins)
    (hid : j'.id = j.id) : b' = b ∧ j' = j := by
  have hsame : j' = j := List.inj_on_of_nodup_map hjoins
    (List.mem_flatMap.2 ⟨b', hb', hj'⟩) (List.mem_flatMap.2 ⟨b, hb, hj⟩) hid
  exact ⟨eq_of_mem_flatMap hjoins.of_map hb' hb hj' (hsame ▸ hj), hsame⟩

/-- The findings on a join of a block: an end is missing, or both ends are one, or a step of another
kind carries it. -/
theorem mem_diagnose_onJoin_iff (hjoins : ((c.blocks.flatMap (·.joins)).map (·.id)).Nodup)
    (hb : b ∈ c.blocks) (hj : j ∈ b.joins) :
    (f ∈ c.diagnose ∧ OnJoin j.id f) ↔
      (link? b j = none ∧ f = missingEnd j.id) ∨
      (∃ l, link? b j = some l ∧ l.source.id = l.target.id ∧ f = selfJoin j.id) ∨
      ∃ s ∈ steps (fromItems b), j ∈ s.conditions ∧ j.kind ≠ s.kind ∧
        f = otherKind j.kind s.kind j.id := by
  constructor
  · rintro ⟨hf, hon⟩
    have hentity := hon.entity
    rcases mem_diagnose.1 hf with hf | ⟨b', hb', hf⟩
    · have hlead := hon.lead?
      rw [Diagnosis.lead?_cteNames hf] at hlead
      exact absurd hlead (by decide)
    · rcases Diagnosis.mem_block_of_onJoin hon hf with hf | hf
      · obtain ⟨j', hj', hf⟩ := Diagnosis.mem_joins_iff.1 hf
        have hid : j'.id = j.id := by
          rcases hf with ⟨-, rfl⟩ | ⟨l, -, -, rfl⟩ <;> exact Option.some.inj hentity
        obtain ⟨rfl, rfl⟩ := eq_of_join_id hjoins hb hj hb' hj' hid
        exact hf.imp_right .inl
      · obtain ⟨s, hs, j', hj', hkind, rfl⟩ := Diagnosis.mem_joinKinds_iff.1 hf
        have hwritten : j' ∈ written (fromItems b') := by
          rw [written_eq]
          exact List.mem_flatMap.2 ⟨s, hs, hj'⟩
        obtain ⟨rfl, rfl⟩ := eq_of_join_id hjoins hb hj hb'
          ((fromItems_arranged b').2.2 j' hwritten) (Option.some.inj hentity)
        exact .inr (.inr ⟨s, hs, hj', hkind, rfl⟩)
  · have hblock (hf : f ∈ Diagnosis.joins b ∨ f ∈ Diagnosis.joinKinds b) : f ∈ c.diagnose := by
      refine mem_diagnose.2 (.inr ⟨b, hb, ?_⟩)
      simp only [Diagnosis.block, List.mem_append]
      tauto
    rintro (⟨hlink, rfl⟩ | ⟨l, hlink, hself, rfl⟩ | ⟨s, hs, hcarries, hkind, rfl⟩)
    · exact ⟨hblock (.inl (Diagnosis.mem_joins_iff.2 ⟨j, hj, .inl ⟨hlink, rfl⟩⟩)), .missingEnd⟩
    · exact ⟨hblock (.inl (Diagnosis.mem_joins_iff.2 ⟨j, hj, .inr ⟨l, hlink, hself, rfl⟩⟩)),
        .selfJoin⟩
    · exact ⟨hblock (.inr (Diagnosis.mem_joinKinds_iff.2 ⟨s, hs, j, hcarries, hkind, rfl⟩)),
        .otherKind _ _⟩

/-- **A join has a finding exactly if it is not written as it is drawn.**  The finding on its kind
names the kind of the one step that carries it. -/
theorem finding_on_join_iff (hjoins : ((c.blocks.flatMap (·.joins)).map (·.id)).Nodup)
    (hb : b ∈ c.blocks) (hj : j ∈ b.joins) :
    ((∃ f ∈ c.diagnose, OnJoin j.id f) ↔ ¬b.WritesAsDrawn j) ∧
      ∀ own written, otherKind own written j.id ∈ c.diagnose →
        own = j.kind ∧ (∃ s ∈ steps (fromItems b), j ∈ s.conditions) ∧
          ∀ s ∈ steps (fromItems b), j ∈ s.conditions → s.kind = written := by
  have hblock : b.joins.Nodup := (List.nodup_flatMap.1 hjoins.of_map).1 b hb
  have hfound {f : Finding} := mem_diagnose_onJoin_iff (f := f) hjoins hb hj
  refine ⟨⟨?_, fun hnot => ?_⟩, fun own written hf => ?_⟩
  · rintro ⟨f, hf, hon⟩ ⟨hlink, s', hs', hcarries', hkind'⟩
    rcases hfound.1 ⟨hf, hon⟩ with ⟨hnone, -⟩ | ⟨l, hsome, hself, -⟩ | ⟨s, hs, hcarries, hkind, -⟩
    · rw [hnone] at hlink
      cases hlink
    · refine (mem_written_iff hj hsome).1 ?_ hself
      rw [written_eq]
      exact List.mem_flatMap.2 ⟨s', hs', hcarries'⟩
    · exact hkind (step_unique hblock hs' hs hcarries' hcarries ▸ hkind'.symm)
  · cases hlink : link? b j with
    | none => exact ⟨_, hfound.2 (.inl ⟨hlink, rfl⟩)⟩
    | some l =>
      by_cases hself : l.source.id = l.target.id
      · exact ⟨_, hfound.2 (.inr (.inl ⟨l, hlink, hself, rfl⟩))⟩
      · have hwritten := (mem_written_iff hj hlink).2 hself
        rw [written_eq] at hwritten
        obtain ⟨s, hs, hcarries⟩ := List.mem_flatMap.1 hwritten
        have hkind : j.kind ≠ s.kind := fun hsame =>
          hnot ⟨Option.isSome_of_eq_some hlink, s, hs, hcarries, hsame.symm⟩
        exact ⟨_, hfound.2 (.inr (.inr ⟨s, hs, hcarries, hkind, rfl⟩))⟩
  · have hlead := lead?_otherKind own written j.id
    rcases hfound.1 ⟨hf, .otherKind own written⟩ with
      ⟨-, heq⟩ | ⟨l, -, -, heq⟩ | ⟨s, hs, hcarries, -, heq⟩
    · rw [heq, show (missingEnd j.id).lead? = some 'j' from lead?_error (by decide)] at hlead
      cases own <;> exact absurd hlead (by decide)
    · rw [heq, show (selfJoin j.id).lead? = some 'j' from lead?_warning (by decide)] at hlead
      cases own <;> exact absurd hlead (by decide)
    · obtain ⟨rfl, rfl, -⟩ := otherKind_inj heq
      exact ⟨rfl, ⟨s, hs, hcarries⟩, fun s' hs' hcarries' =>
        congrArg JoinStep.kind (step_unique hblock hs' hs hcarries' hcarries)⟩

/-! ## Two tables that are joined twice -/

/-- A left join between the tables numbered zero and one. -/
def outerJoin : Join :=
  { id := EntityId.minted 3, sourceTable := EntityId.minted 0, sourceColumn := "y"
    targetTable := EntityId.minted 1, targetColumn := "y", kind := .left }

/-- An inner join and a left join of the same two tables. -/
def joinedTwice : Canvas :=
  { ctes := []
    root := { Block.empty with
      tables := [
        .create (EntityId.minted 0) "a" [] default, .create (EntityId.minted 1) "b" [] default]
      joins := [{
        id := EntityId.minted 2, sourceTable := EntityId.minted 0, sourceColumn := "x"
        targetTable := EntityId.minted 1, targetColumn := "x", kind := .inner }, outerJoin] } }

/-- The left join adds its condition to the step of the inner join. -/
theorem finding_on_join_joinedTwice :
    ((joinedTwice.blocks.flatMap (·.joins)).map (·.id)).Nodup ∧
      joinedTwice.root ∈ joinedTwice.blocks ∧ outerJoin ∈ joinedTwice.root.joins ∧
      otherKind .left .inner outerJoin.id ∈ joinedTwice.diagnose ∧
      ¬joinedTwice.root.WritesAsDrawn outerJoin ∧
      ∀ s ∈ steps (fromItems joinedTwice.root), outerJoin ∈ s.conditions → s.kind = .inner := by
  have hjoins : ((joinedTwice.blocks.flatMap (·.joins)).map (·.id)).Nodup := by decide +kernel
  have hroot : joinedTwice.root ∈ joinedTwice.blocks := by decide +kernel
  have hdrawn : outerJoin ∈ joinedTwice.root.joins := by decide +kernel
  have hfound : otherKind .left .inner outerJoin.id ∈ joinedTwice.diagnose := by decide +kernel
  obtain ⟨hiff, hkinds⟩ := finding_on_join_iff hjoins hroot hdrawn
  exact ⟨hjoins, hroot, hdrawn, hfound, hiff.1 ⟨_, hfound, .otherKind _ _⟩,
    (hkinds _ _ hfound).2.2⟩

end Canvas

end QueryCanvas
