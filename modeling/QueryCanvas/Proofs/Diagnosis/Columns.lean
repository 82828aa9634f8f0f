import QueryCanvas.Proofs.Diagnosis.Joins
import QueryCanvas.Proofs.Sql.References

/-!
# Findings on columns of tables that are not there

The diagnosis takes what stands before the last point of a written column for the name of its table.
It has a finding on the column exactly if nothing in the block has this name; such findings are told
from all others by their last letter.  A column whose names hold no points and no quotes is cut at
the right point.  A text with more in it than one column may not be.
-/

set_option autoImplicit false

namespace QueryCanvas

open Sql

namespace Sql

/-! ## What the last point tells -/

/-- What stands before the last point of the text is the one source that the text refers to, if it
refers to any. -/
def TellsSource (text : String) : Prop :=
  (referencesIn text).map (·.source) = (columnQualifier? text).toList

instance (text : String) : Decidable (TellsSource text) :=
  inferInstanceAs (Decidable (_ = _))

example : TellsSource "\"t u\".a" ∧ ¬TellsSource "COUNT(t.a)" := by decide +kernel

variable {p : Char → Bool} {cs cs' : List Char}

theorem dropWhile_of_head (h : ∀ c ∈ cs.head?, p c = false) : cs.dropWhile p = cs := by
  cases cs with
  | nil => rfl
  | cons c rest => exact List.dropWhile_cons_of_neg (by simp [h c rfl])

/-- Nothing is dropped from a text with other characters at both ends. -/
theorem stripWhere_of_ends (hfirst : ∀ c ∈ cs.head?, p c = false)
    (hlast : ∀ c ∈ cs.getLast?, p c = false) : Text.stripWhere p cs = cs := by
  rw [← List.head?_reverse] at hlast
  rw [Text.stripWhere, dropWhile_of_head hfirst, dropWhile_of_head hlast, List.reverse_reverse]

/-- Quotes around a text without quotes are dropped. -/
theorem stripWhere_quotes (h : '"' ∉ cs) :
    Text.stripWhere (· == '"') ('"' :: cs ++ ['"']) = cs := by
  have hnot : ∀ c ∈ cs, (c == '"') = false := fun c hc =>
    beq_eq_false_iff_ne.2 fun hquote => h (hquote ▸ hc)
  have hfirst : ('"' :: cs ++ ['"']).dropWhile (· == '"') = (cs ++ ['"']).dropWhile (· == '"') :=
    rfl
  have hlast : ('"' :: cs.reverse).dropWhile (· == '"') = cs.reverse.dropWhile (· == '"') := rfl
  cases cs with
  | nil => rfl
  | cons c rest =>
    have hhead : (c :: rest ++ ['"']).dropWhile (· == '"') = c :: rest ++ ['"'] :=
      dropWhile_of_head fun x hx => hnot x (by cases hx; exact List.mem_cons_self)
    rw [Text.stripWhere, hfirst, hhead, List.reverse_append, List.reverse_singleton,
      List.singleton_append, hlast, dropWhile_of_head fun x hx => hnot x ?_, List.reverse_reverse]
    exact List.mem_reverse.1 (List.mem_of_mem_head? hx)

theorem isBlank_of_isNamePart {c : Char} (h : Parameter.isNamePart c) :
    Text.isBlank c = false := by
  rcases Bool.or_eq_true _ _ ▸ h with h | h
  · delta Char.isAlphanum Char.isAlpha Char.isUpper Char.isLower Char.isDigit at h
    simp only [Bool.or_eq_true, Bool.and_eq_true, decide_eq_true_eq, ge_iff_le,
      UInt32.le_iff_toNat_le] at h
    simp at h
    simp only [Text.isBlank, Bool.or_eq_false_iff, Bool.and_eq_false_imp, decide_eq_true_eq,
      decide_eq_false_iff_not]
    omega
  · rw [beq_iff_eq.1 h]
    rfl

/-- Without marks in it nothing is doubled. -/
theorem doubled_eq_self {mark : Char} (h : mark ∉ cs) : doubled mark cs = cs := by
  induction cs with
  | nil => rfl
  | cons c rest ih =>
    rw [List.mem_cons, not_or] at h
    rw [doubled, List.flatMap_cons, if_neg fun hc => h.1 hc.symm]
    exact congrArg (c :: ·) (ih h.2)

theorem mem_of_mem_doubled {mark c : Char} (h : c ∈ doubled mark cs) : c ∈ cs := by
  obtain ⟨x, hx, hc⟩ := List.mem_flatMap.1 h
  split at hc
  · rename_i hmark
    have hc : c = mark := by simpa using hc
    rwa [hc, ← hmark]
  · rwa [List.mem_singleton.1 hc]

/-- What stands before the last point. -/
theorem columnQualifier?_point {x : String} (hx : x.toList = cs ++ '.' :: cs') (h : '.' ∉ cs') :
    columnQualifier? x =
      some (String.ofList (Text.stripWhere (· == '"') (Text.stripWhere Text.isBlank cs))) := by
  have hcut : x.toList.reverse.dropWhile (· ≠ '.') = '.' :: cs.reverse := by
    rw [hx, List.reverse_append, List.reverse_cons, List.append_assoc,
      List.dropWhile_append_of_pos]
    · rfl
    · intro c hc
      simp only [decide_eq_true_eq]
      rintro rfl
      exact h (List.mem_reverse.1 hc)
  simp only [columnQualifier?, hcut, List.reverse_reverse]

theorem not_mem_quoteName {name : String} {c : Char} (h : c ∉ name.toList) (hc : c ≠ '"') :
    c ∉ (quoteName name).toList := by
  unfold quoteName
  split
  · exact h
  · rw [toList_quoted]
    simpa [hc] using fun hmem => h (mem_of_mem_doubled hmem)

end Sql

/-! ## The findings -/

/-- Something in the block has the name, in any case: a table, or a nested query in the `FROM`
clause. -/
def Block.knows (b : Block) (name : String) : Bool :=
  b.tables.any (fun t => Text.sameName t.name name) ||
    (b.subqueriesIn .fromClause).any fun s => s.aliasName.any fun a => Text.sameName a name

/-- The written columns of the filters, the grouping, the conditions on groups and the sorting. -/
def Block.clauseColumns (b : Block) : List String :=
  b.filters.map (·.column) ++ b.groupBy.map (·.column) ++ b.having.map (·.column)
    ++ b.orderBy.map (·.column)

namespace Finding

variable {f : Finding} {id : EntityId}

/-- The finding says that a column belongs to no table of the query. -/
def SaysUnknownTable (f : Finding) : Prop :=
  " refers to a table not in this query".toList <:+ f.message.toList

instance (f : Finding) : Decidable f.SaysUnknownTable :=
  inferInstanceAs (Decidable (_ <:+ _))

/-- The last letter of a finding. -/
def last? (f : Finding) : Option Char := f.message.toList.getLast?

theorem SaysUnknownTable.last? (h : f.SaysUnknownTable) : f.last? = some 'y' := by
  obtain ⟨first, hmessage⟩ := h
  rw [Finding.last?, ← hmessage, List.getLast?_append]
  rfl

theorem last?_mk {severity : Severity} {message : String} {entity : Option EntityId} {c : Char}
    (h : message.toList.getLast? = some c) : (mk severity message entity).last? = some c := h

/-- The last letter of a text is that of its end. -/
theorem getLast?_append {last : String} {c : Char} (h : last.toList.getLast? = some c)
    (first : String) : (first ++ last).toList.getLast? = some c := by
  rw [String.toList_append, List.getLast?_append, h]
  rfl

end Finding

namespace Diagnosis

open Finding

variable {c : Canvas} {b : Block} {f : Finding} {id : EntityId}

/-! ### Findings on other things -/

theorem last?_cteNames {before : List String} {ctes : List Cte} (h : f ∈ cteNames before ctes) :
    f.last? = some 'e' := by
  induction ctes generalizing before with
  | nil => cases h
  | cons q rest ih =>
    rw [cteNames] at h
    split at h
    · rcases List.mem_cons.1 h with rfl | h
      · exact last?_mk (by decide)
      · exact ih h
    · split at h
      · rcases List.mem_cons.1 h with rfl | h
        · exact last?_mk (getLast?_append (by decide) _)
        · exact ih h
      · exact ih h

theorem last?_tables (h : f ∈ tables c b) : f.last? = some 's' := by
  obtain ⟨t, -, hf⟩ := List.mem_filterMap.1 h
  split at hf
  · cases hf
    exact last?_mk (getLast?_append (by decide) _)
  · cases hf

theorem last?_joins (h : f ∈ joins b) : f.last? = some 'g' ∨ f.last? = some 'd' := by
  obtain ⟨j, -, ⟨-, rfl⟩ | ⟨l, -, -, rfl⟩⟩ := mem_joins_iff.1 h
  · exact .inl (last?_mk (by decide))
  · exact .inr (last?_mk (by decide))

theorem last?_joinKinds (h : f ∈ joinKinds b) : f.last? = some 'o' := by
  obtain ⟨s, -, j, -, -, rfl⟩ := mem_joinKinds_iff.1 h
  exact last?_mk (getLast?_append (by decide) _)

theorem last?_subquery {s : Subquery} (h : f ∈ subquery b s) :
    f.last? = some 'd' ∨ f.last? = some 's' := by
  rcases List.mem_append.1 h with h | h
  · split at h
    · rw [List.mem_singleton.1 h]
      exact .inl (last?_mk (by decide))
    · cases h
  · split at h
    · rw [List.mem_singleton.1 h]
      exact .inr (last?_mk (by decide))
    · cases h

theorem last?_limit {l : Option Limit} (h : f ∈ limit l) : f.last? = some 'r' := by
  unfold limit at h
  split at h
  · split at h
    · cases h
    · rw [List.mem_singleton.1 h]
      exact last?_mk (getLast?_append (by decide) _)
  · cases h

/-! ### Findings on columns -/

theorem isKnown_eq_false_iff {x : String} :
    isKnown b x = false ↔ ∃ name, columnQualifier? x = some name ∧ b.knows name = false := by
  unfold isKnown
  cases columnQualifier? x with
  | none => simp
  | some name => simp [Block.knows]

theorem unknown_of_mem_column {clause x : String} (h : f ∈ column b clause x id) :
    isKnown b x = false := by
  unfold column at h
  split at h
  · cases h
  · rename_i hunknown
    exact Bool.eq_false_iff.2 hunknown

/-- There is a finding on a column that nothing in the block is known by. -/
theorem exists_mem_column {x : String} (h : isKnown b x = false) (clause : String)
    (id : EntityId) : ∃ f ∈ column b clause x id, f.SaysUnknownTable := by
  rw [column, h]
  refine ⟨_, List.mem_singleton_self _, (clause ++ " column " ++ x).toList, ?_⟩
  exact (String.toList_append ..).symm

/-- A filter has such a finding on its column only. -/
theorem mem_filter_of_says (hf : f.SaysUnknownTable) {x : Filter} (h : f ∈ filter b x) :
    isKnown b x.column = false := by
  rcases List.mem_append.1 h with h | h
  · exact unknown_of_mem_column h
  · have hlast := hf.last?
    split at h
    · have hs : f.last? = some 's' := by
        rw [List.mem_singleton.1 h]
        exact last?_mk (by decide)
      rw [hs] at hlast
      exact absurd hlast (by decide)
    · cases h

theorem mem_block_of_says (hf : f.SaysUnknownTable) (h : f ∈ block c b) :
    ∃ x ∈ b.clauseColumns, isKnown b x = false := by
  have hlast := hf.last?
  have hother {letter : Char} (h : f.last? = some letter) (hnot : letter ≠ 'y') : False := by
    rw [h] at hlast
    exact hnot (Option.some.inj hlast)
  simp only [Block.clauseColumns, List.mem_append, List.mem_map]
  simp only [block, List.mem_append, List.mem_flatMap] at h
  rcases h with
    ((((((((h | h) | h) | ⟨x, hx, h⟩) | ⟨x, hx, h⟩) | ⟨x, hx, h⟩) | ⟨x, hx, h⟩) | ⟨s, -, h⟩) | h)
  · exact (hother (last?_tables h) (by decide)).elim
  · exact ((last?_joins h).elim (hother · (by decide)) (hother · (by decide))).elim
  · exact (hother (last?_joinKinds h) (by decide)).elim
  · exact ⟨x.column, .inl (.inl (.inl ⟨x, hx, rfl⟩)), mem_filter_of_says hf h⟩
  · exact ⟨x.column, .inl (.inl (.inr ⟨x, hx, rfl⟩)), unknown_of_mem_column h⟩
  · exact ⟨x.column, .inl (.inr ⟨x, hx, rfl⟩), unknown_of_mem_column h⟩
  · exact ⟨x.column, .inr ⟨x, hx, rfl⟩, unknown_of_mem_column h⟩
  · exact ((last?_subquery h).elim (hother · (by decide)) (hother · (by decide))).elim
  · exact (hother (last?_limit h) (by decide)).elim

theorem exists_mem_block {x : String} (hx : x ∈ b.clauseColumns) (h : isKnown b x = false) :
    ∃ f ∈ block c b, f.SaysUnknownTable := by
  simp only [Block.clauseColumns, List.mem_append, List.mem_map] at hx
  simp only [block, List.mem_append, List.mem_flatMap]
  rcases hx with ((⟨y, hy, rfl⟩ | ⟨y, hy, rfl⟩) | ⟨y, hy, rfl⟩) | ⟨y, hy, rfl⟩
  · obtain ⟨f, hf, htold⟩ := exists_mem_column h "filter" y.id
    have hf : f ∈ filter b y := List.mem_append_left _ hf
    exact ⟨f, .inl (.inl (.inl (.inl (.inl (.inr ⟨y, hy, hf⟩))))), htold⟩
  · obtain ⟨f, hf, htold⟩ := exists_mem_column h "GROUP BY" y.id
    exact ⟨f, .inl (.inl (.inl (.inl (.inr ⟨y, hy, hf⟩)))), htold⟩
  · obtain ⟨f, hf, htold⟩ := exists_mem_column h "HAVING" y.id
    exact ⟨f, .inl (.inl (.inl (.inr ⟨y, hy, hf⟩))), htold⟩
  · obtain ⟨f, hf, htold⟩ := exists_mem_column h "ORDER BY" y.id
    exact ⟨f, .inl (.inl (.inr ⟨y, hy, hf⟩)), htold⟩

end Diagnosis

/-- The diagnosis says that a column belongs to no table exactly if a column of a clause is taken
for one of a table that its block does not know. -/
theorem Canvas.saysUnknownTable_iff {c : Canvas} :
    (∃ f ∈ c.diagnose, f.SaysUnknownTable) ↔
      ∃ b ∈ c.blocks, ∃ x ∈ b.clauseColumns, Diagnosis.isKnown b x = false := by
  constructor
  · rintro ⟨f, hf, htold⟩
    rcases Canvas.mem_diagnose.1 hf with hf | ⟨b, hb, hf⟩
    · have hlast := htold.last?
      rw [Diagnosis.last?_cteNames hf] at hlast
      exact absurd hlast (by decide)
    · exact ⟨b, hb, Diagnosis.mem_block_of_says htold hf⟩
  · rintro ⟨b, hb, x, hx, hunknown⟩
    obtain ⟨f, hf, htold⟩ := Diagnosis.exists_mem_block (c := c) hx hunknown
    exact ⟨f, Canvas.mem_diagnose.2 (.inr ⟨b, hb, hf⟩), htold⟩

end QueryCanvas
