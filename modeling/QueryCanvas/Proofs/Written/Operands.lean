import QueryCanvas.Proofs.Written.Takes

/-!
# Reading operands

Columns, values and calls of aggregate functions as the grammar reads them off their tokens.  An
expression is read operand by operand: what has been read so far is kept as a reading that can go
on, and whatever comes of going on from there comes of the whole.
-/

set_option autoImplicit false

namespace QueryCanvas.Sql

section Operands

open Sql.Parser

/-! ## The grammar at a level -/

/-- The grammar of the generic dialect with so many levels left. -/
def grammar (n : Nat) : Inside := inside .generic n false

variable {n levels strength : Nat} {ts rest : List Token} {e : Expr} {q : Query}

@[simp] theorem grammar_dialect : (grammar n).dialect = .generic := by
  cases n <;> rfl

@[simp] theorem grammar_trailing : (grammar n).trailing = false := by
  rw [Inside.trailing, grammar_dialect]
  rfl

/-- An expression inside a construct is one level deeper. -/
theorem Takes.operand (h : ∀ n, Takes n ((grammar n).expression strength) ts levels e rest) :
    Takes n ((grammar n).operand strength) ts (levels + 1) e rest := by
  cases n with
  | zero => rfl
  | succ n =>
    have hinner := h n
    unfold Takes at *
    show (grammar n).expression strength ts = _
    rw [hinner]
    simp only [Nat.add_le_add_iff_right]

/-- A query inside a construct is one level deeper. -/
theorem Takes.query (h : ∀ n, Takes n (grammar n).wholeQuery ts levels q rest) :
    Takes n (grammar n).query ts (levels + 1) q rest := by
  cases n with
  | zero => rfl
  | succ n =>
    have hinner := h n
    unfold Takes at *
    show (grammar n).wholeQuery ts = _
    rw [hinner]
    simp only [Nat.add_le_add_iff_right]

/-! ## Identifiers -/

/-- The keywords that mean something where a name can stand. -/
def namedKeywords : List String :=
  ["ALL", "ANY", "ARRAY", "AS", "BIGDECIMAL", "BIGINT", "BIGNUMERIC", "BINARY", "BLOB", "BOOL",
   "BOOLEAN", "BYTEA", "BYTES", "CASE", "CAST", "CEIL", "CHAR", "CHARACTER", "CLOB", "CONVERT",
   "CUBE", "CURRENT_CATALOG", "CURRENT_DATE", "CURRENT_TIME", "CURRENT_TIMESTAMP", "CURRENT_USER",
   "DATE", "DATE32", "DATETIME", "DEC", "DECIMAL", "DISTINCT", "DOUBLE", "ENUM", "EXISTS",
   "EXTRACT", "FALSE", "FLOAT", "FLOAT32", "FLOAT4", "FLOAT64", "FLOAT8", "FLOOR", "FROM",
   "GROUPING", "INT", "INT128", "INT16", "INT2", "INT256", "INT32", "INT4", "INT64", "INT8",
   "INTEGER", "INTERVAL", "JSON", "JSONB", "LATERAL", "LOCALTIME", "LOCALTIMESTAMP", "MAP", "MATCH",
   "MEDIUMINT", "NOT", "NULL", "NUMERIC", "NVARCHAR", "OVERLAY", "POSITION", "PRIOR", "REAL",
   "RECURSIVE", "REGCLASS", "ROLLUP", "SAFE_CAST", "SELECT", "SESSION_USER", "SET", "SMALLINT",
   "SOME", "STRING", "STRUCT", "SUBSTRING", "TABLE", "TEXT", "TIME", "TIMESTAMP", "TIMESTAMPTZ",
   "TIMETZ", "TINYINT", "TOP", "TRIGGER", "TRIM", "TRUE", "TRY_CAST", "TRY_CONVERT", "UINT128",
   "UINT16", "UINT256", "UINT32", "UINT64", "UINT8", "UNNEST", "USER", "UUID", "VALUES",
   "VARBINARY", "VARCHAR", "WITH"]

/-- A name that is written bare and in lower case, and that is none of the keywords that mean
something where it stands. -/
structure Identifier (s : String) : Prop where
  plain : isPlainName s
  lower : s.toLower = s
  free : s.toUpper ∉ namedKeywords

instance (s : String) : Decidable (Identifier s) :=
  decidable_of_iff (isPlainName s ∧ s.toLower = s ∧ s.toUpper ∉ namedKeywords)
    ⟨fun ⟨hplain, hlower, hfree⟩ => ⟨hplain, hlower, hfree⟩,
      fun h => ⟨h.plain, h.lower, h.free⟩⟩

/-- The keywords that begin a type. -/
def typeKeywords : List String :=
  plainTypes ++ sizedTypes ++ decimalTypes ++ wholeTypes ++
    ["DOUBLE", "VARCHAR", "NVARCHAR", "CHARACTER", "CHAR", "TIMESTAMP", "TIME", "ENUM", "SET",
     "INTERVAL", "ARRAY"]

theorem typeKeywords_subset : ∀ k ∈ typeKeywords, k ∈ namedKeywords := by
  decide +kernel

theorem ascii_of_isPlainName {s : String} (h : isPlainName s) : s.toList.all (·.toNat < 128) := by
  simp only [isPlainName, Bool.and_eq_true, List.all_eq_true] at h ⊢
  intro c hc
  have hpart := h.2 c hc
  simp only [Parameter.isNamePart] at hpart
  delta Char.isAlphanum Char.isAlpha Char.isUpper Char.isLower Char.isDigit at hpart
  simp only [Bool.or_eq_true, Bool.and_eq_true, decide_eq_true_eq, beq_iff_eq, ge_iff_le,
    UInt32.le_iff_toNat_le] at hpart
  simp only [decide_eq_true_eq]
  rcases hpart with ((h | h) | h) | rfl
  · exact Nat.lt_of_le_of_lt h.2 (by decide)
  · exact Nat.lt_of_le_of_lt h.2 (by decide)
  · exact Nat.lt_of_le_of_lt h.2 (by decide)
  · decide

namespace Identifier

variable {s k : String}

theorem folded (h : Identifier s) : (Name.bare s).folded = s.toUpper := by
  rw [Name.folded, Name.bare, Text.capitals, if_pos (ascii_of_isPlainName h.plain)]

theorem folded_ne (h : Identifier s) (hk : k ∈ namedKeywords) : (Name.bare s).folded ≠ k := by
  rintro rfl
  rw [h.folded] at hk
  exact h.free hk

theorem lead_ne (h : Identifier s) (hk : k ∈ namedKeywords) : lead (bare s :: ts) ≠ .word k := by
  intro heq
  exact h.folded_ne hk (Lead.word.inj heq)

theorem not_type (h : Identifier s) : (Name.bare s).folded ∉ typeKeywords :=
  fun hk => h.folded_ne (typeKeywords_subset _ hk) rfl

end Identifier

/-! ## Names -/

theorem name_take {s : String} : name (bare s :: ts) = .ok (.bare s, ts) := by
  simp [name, next, bare]

theorem path_alone {s : String} (h : lead rest ≠ .mark ".") :
    path (bare s :: rest) = .ok ([.bare s], rest) := path_one (head?_ne_of_lead h)

theorem path_pair {s s' : String} (h : lead rest ≠ .mark ".") :
    path (bare s :: .mark "." :: bare s' :: rest) = .ok ([.bare s, .bare s'], rest) :=
  path_two (head?_ne_of_lead h)

/-! ## Operands that are no types -/

/-- What can follow an operand. -/
def operandEnds : List Lead :=
  [.none, .mark ")", .mark ",", .mark "=", .mark "!=", .mark "<", .mark "<=", .mark ">",
   .mark ">=", .word "AND", .word "OR", .word "FROM", .word "AS", .word "WHERE", .word "GROUP",
   .word "HAVING", .word "ORDER", .word "LIMIT", .word "ASC", .word "DESC", .word "INNER",
   .word "LEFT", .word "RIGHT", .word "FULL", .word "NOT", .word "IN", .word "BETWEEN",
   .word "LIKE", .word "ILIKE", .word "IS"]

/-- What begins with no word is no type. -/
theorem typedText_of_lead {g : Inside} (h : ∀ k, lead ts ≠ .word k) :
    g.typedText ts = .error .mismatch := by
  have hbase : ∀ inner, baseType inner ts = .error .mismatch := by
    intro inner
    cases ts with
    | nil => rfl
    | cons t ts =>
      cases t with
      | word n => exact (h n.folded rfl).elim
      | _ => rfl
  have htype : ∀ d, dataType d ts = .error .mismatch := by
    intro d
    simp [dataType, dataTypeUpTo, hbase]
  simp [Inside.typedText, htype]

/-- A word that is no type of the language is read as a type of one's own. -/
theorem baseType_word {s : String} (h : (Name.bare s).folded ∉ typeKeywords)
    (inner : Parser String) :
    baseType inner (bare s :: ts) =
      (customType >>= fun t => pure (t, TypeKind.custom)) (bare s :: ts) := by
  have hne : ∀ k ∈ typeKeywords, (Name.bare s).folded ≠ k := fun k hk heq => h (heq ▸ hk)
  have hforms : ∀ k ∈ ["DOUBLE", "VARCHAR", "NVARCHAR", "CHARACTER", "CHAR", "TIMESTAMP", "TIME",
      "ENUM", "SET", "INTERVAL", "ARRAY"], (Name.bare s).folded ≠ k :=
    fun k hk => hne k (List.mem_append_right _ hk)
  simp only [typeKeywords, List.mem_append, not_or] at h
  obtain ⟨⟨⟨⟨hplain, hsized⟩, hdecimal⟩, hwhole⟩, -⟩ := h
  simp only [List.mem_cons, List.not_mem_nil, or_false, forall_eq_or_imp, forall_eq] at hforms
  have hpeek : peek (bare s :: ts) = .ok (some (.word (.bare s)), bare s :: ts) := rfl
  generalize hread : (customType >>= fun t => pure (t, TypeKind.custom)) = read
  simp only [baseType, ↓bind_run, hpeek, List.contains_eq_mem, hplain, hsized, hdecimal, hwhole,
    decide_false, Bool.false_eq_true, ↓reduceIte]
  rw [← hread]
  refine congrFun ?_ (bare s :: ts)
  generalize (Name.bare s).folded = k at hforms ⊢
  split <;> first | rfl | simp only [ne_eq, not_true_eq_false, false_and, and_false] at hforms

/-- A word that is read as a type of one's own is no typed text, unless brackets follow. -/
theorem typedText_custom {s t : String} (hs : (Name.bare s).folded ∉ typeKeywords)
    (htype : customType (bare s :: ts) = .ok (t, rest)) (hrest : lead rest ≠ .mark "[") :
    (grammar n).typedText (bare s :: ts) = .error .mismatch := by
  have hbrackets : arrayBrackets .generic rest = .ok ("", rest) := by
    have hnone : many (do
        if ← mark? "[" then
          let size ← if Dialect.generic ∈ [Dialect.generic, .duckdb, .postgresql]
            then attempt natural else pure none
          mark "]"
          return some ("[" ++ optional "" (size.map toString) ++ "]")
        else return none) rest = .ok ([], rest) :=
      many_none (by simp [mark?_skip hrest])
    simp only [arrayBrackets, bind_run, hnone]
    rfl
  have hbase : ∀ inner, baseType inner (bare s :: ts) = .ok ((t, .custom), rest) := by
    intro inner
    rw [baseType_word hs]
    simp only [bind_run, htype]
    rfl
  have htyped : dataType .generic (bare s :: ts) = .ok ((t ++ "", .custom), rest) :=
    (bind_ok (hbase _) _).trans ((bind_ok hbrackets _).trans rfl)
  have hdialect : dataType (grammar n).dialect (bare s :: ts) = .ok ((t ++ "", .custom), rest) :=
    grammar_dialect (n := n) ▸ htyped
  exact (bind_ok hdialect _).trans rfl

/-- A word that begins no type of one's own is no typed text. -/
theorem typedText_mismatch {s : String} (hs : (Name.bare s).folded ∉ typeKeywords)
    (htype : customType (bare s :: ts) = .error .mismatch) :
    (grammar n).typedText (bare s :: ts) = .error .mismatch := by
  have hbase : ∀ inner, baseType inner (bare s :: ts) = .error .mismatch := by
    intro inner
    rw [baseType_word hs]
    simp [htype]
  have htyped : dataType (grammar n).dialect (bare s :: ts) = .error .mismatch :=
    bind_error (hbase _) _
  exact bind_error htyped _

/-- Where no typed text begins, an operand is read as such, and no collation follows. -/
theorem operandFirst_untyped (htyped : (grammar n).typedText ts = .error .mismatch)
    (h : Takes n (grammar n).plainOperand ts levels e rest) (hrest : lead rest ∈ operandEnds) :
    Takes n (grammar n).operandFirst ts levels e rest := by
  have hattempt : attempt (grammar n).typedText ts = .ok (none, ts) := by
    simp [attempt, htyped]
  have hcollate : after? "COLLATE" path rest = .ok (none, rest) :=
    after?_skip (ne_of_lead hrest (by decide))
  refine Takes.step hattempt (Takes.last h ?_)
  simp [hcollate]

/-! ## Columns -/

/-- The keywords that begin operands of a form of their own. -/
def formKeywords : List String :=
  ["TRUE", "FALSE", "NULL", "CURRENT_CATALOG", "CURRENT_USER", "SESSION_USER", "USER",
   "CURRENT_TIMESTAMP", "CURRENT_TIME", "CURRENT_DATE", "LOCALTIME", "LOCALTIMESTAMP", "CASE",
   "CONVERT", "TRY_CONVERT", "CAST", "TRY_CAST", "SAFE_CAST", "EXISTS", "EXTRACT", "CEIL", "FLOOR",
   "POSITION", "SUBSTRING", "OVERLAY", "TRIM", "INTERVAL", "ARRAY", "NOT", "MATCH", "STRUCT",
   "PRIOR", "MAP"]

theorem formKeywords_subset : ∀ k ∈ formKeywords, k ∈ namedKeywords := by
  decide +kernel

theorem Identifier.not_form {s : String} (h : Identifier s) :
    (Name.bare s).folded ∉ formKeywords :=
  fun hk => h.folded_ne (formKeywords_subset _ hk) rfl

theorem worded_named {name : Name} (h : name.folded ∉ formKeywords) (ts : List Token) :
    (grammar n).worded name ts = (grammar n).named name ts := by
  simp only [formKeywords, List.mem_cons, List.not_mem_nil, or_false, not_or] at h
  refine congrFun ?_ ts
  unfold Inside.worded
  generalize name.folded = k at h ⊢
  split <;> first | rfl | simp only [not_true_eq_false, false_and, and_false] at h

theorem plainOperand_word {s : String} (h : (Name.bare s).folded ∉ formKeywords) :
    (grammar n).plainOperand (bare s :: ts) = (grammar n).named (.bare s) ts := by
  rw [← worded_named h]
  rfl

theorem named_column {name : Name} {c : String} (h : lead rest ∈ operandEnds) :
    (grammar n).named name (.mark "." :: bare c :: rest) =
      .ok (.column [name, .bare c], rest) := by
  have hpoint := mark?_skip (ne_of_lead h (x := .mark ".") (by decide))
  have hopen := mark?_skip (ne_of_lead h (x := .mark "(") (by decide))
  have hmembers : (grammar n).members ((.mark "." :: bare c :: rest).length + 1)
      (.mark "." :: bare c :: rest) = .ok (([.bare c], false), rest) := by
    simp [Inside.members, Inside.memberOrStar, next, bare, hpoint]
  show (grammar n).columnOrCall name _ = _
  unfold Inside.columnOrCall
  refine (bind_ok (p := ahead) rfl _).trans ((bind_ok hmembers _).trans ?_)
  exact (bind_ok hopen _).trans rfl

/-- A table's column. -/
theorem operandFirst_reference {q c : String} (hq : Identifier q) (h : lead rest ∈ operandEnds) :
    Takes n (grammar n).operandFirst (bare q :: .mark "." :: bare c :: rest) 0
      (.column [.bare q, .bare c]) rest := by
  have htype : customType (bare q :: .mark "." :: bare c :: rest) =
      .ok (Name.path [.bare q, .bare c], rest) := by
    refine (bind_ok (path_pair (ne_of_lead h (by decide))) _).trans ?_
    exact (bind_ok (mark?_skip (ne_of_lead h (by decide))) _).trans rfl
  refine operandFirst_untyped (typedText_custom hq.not_type htype (ne_of_lead h (by decide)))
    (Takes.of_eq ?_) h
  rw [plainOperand_word hq.not_form]
  exact named_column h

/-! ## Values -/

/-- The word for no value. -/
theorem operandFirst_null (h : lead rest ∈ operandEnds) :
    Takes n (grammar n).operandFirst (bare "NULL" :: rest) 0 .null rest := by
  have hfolded : (Name.bare "NULL").folded = "NULL" := folded_keyword (by decide)
  have hword : (Name.bare "NULL").folded ∉ typeKeywords := by
    rw [hfolded]
    decide
  have htype : customType (bare "NULL" :: rest) = .ok (Name.path [.bare "NULL"], rest) := by
    refine (bind_ok (path_alone (ne_of_lead h (by decide))) _).trans ?_
    exact (bind_ok (mark?_skip (ne_of_lead h (by decide))) _).trans rfl
  refine operandFirst_untyped (typedText_custom hword htype (ne_of_lead h (by decide)))
    (Takes.of_eq ?_) h
  show (grammar n).worded (.bare "NULL") rest = _
  unfold Inside.worded
  rw [hfolded]
  rfl

theorem operandFirst_number {digits : String} (h : lead rest ∈ operandEnds) :
    Takes n (grammar n).operandFirst (.number digits false :: rest) 0 (.number digits false)
      rest :=
  operandFirst_untyped (typedText_of_lead (by simp [lead])) (Takes.of_eq rfl) h

theorem operandFirst_text {s : String} (h : lead rest ∈ operandEnds) :
    Takes n (grammar n).operandFirst (.text .plain s :: rest) 0 (.text s) rest :=
  operandFirst_untyped (typedText_of_lead (by simp [lead])) (Takes.of_eq rfl) h

/-! ## Queries in parentheses -/

theorem operandFirst_subquery {ts : List Token} {k : String} (hk : k ∈ ["SELECT", "WITH"])
    (h : ∀ n, Takes n (grammar n).wholeQuery (bare k :: ts) levels q (.mark ")" :: rest))
    (hrest : lead rest ∈ operandEnds) :
    Takes n (grammar n).operandFirst (.mark "(" :: bare k :: ts) (levels + 1) (.subquery q)
      rest := by
  have hwritten : ∀ k ∈ ["SELECT", "WITH"], k ∈ writtenKeywords := by decide
  have hsees : seesOneOf ["SELECT", "WITH"] (bare k :: ts) = .ok (true, bare k :: ts) :=
    seesOneOf_take (hwritten k hk) hk
  refine operandFirst_untyped (typedText_of_lead (by simp [lead])) ?_ hrest
  show Takes n (grammar n).enclosedOperand (bare k :: ts) _ _ _
  unfold Inside.enclosedOperand
  refine Takes.step hsees ?_
  rw [if_pos rfl]
  refine Takes.last (Takes.map (Takes.query h)) ?_
  refine (bind_ok mark_take _).trans ?_
  exact (bind_ok (mark?_skip (ne_of_lead hrest (by decide))) _).trans rfl

end Operands

section Expressions

open Sql.Parser

variable {n levels levels' strength : Nat} {ts rest rest' : List Token} {e e' : Expr} {q : Query}

/-! ## The strength of what follows -/

/-- The strength of an operator that can be told from the lead. -/
def Lead.binding : Lead → Nat
  | .word k => ((OperatorClass.ofWord? k).map Dialect.generic.strength).getD 0
  | .mark s => ((OperatorClass.ofMark? s).map Dialect.generic.strength).getD 0
  | _ => 0

theorem nextStrength_of_lead (h : lead ts ∉ [.word "AT", .word "NOT", .mark "^", .other]) :
    Dialect.generic.nextStrength ts = (lead ts).binding := by
  simp only [List.mem_cons, List.not_mem_nil, or_false, not_or] at h
  cases ts with
  | nil => rfl
  | cons t ts =>
    cases t with
    | word name =>
      have hat : name.folded ≠ "AT" := fun hk => h.1 (congrArg Lead.word hk)
      have hnot : name.folded ≠ "NOT" := fun hk => h.2.1 (congrArg Lead.word hk)
      simp only [Dialect.nextStrength, lead, Lead.binding]
    | mark s =>
      have hcaret : s ≠ "^" := fun hs => h.2.2.1 (congrArg Lead.mark hs)
      simp only [lead, Lead.binding]
      unfold Dialect.nextStrength
      split <;> simp_all
    | number digits long => rfl
    | text kind s => rfl
    | placeholder s => exact (h.2.2.2 rfl).elim
    | custom s => exact (h.2.2.2 rfl).elim
    | unknown c => exact (h.2.2.2 rfl).elim

/-! ## Going on -/

/-- Going on with an expression from `left`, the parser takes all tokens up to the rest. -/
def Climbs (n strength : Nat) (left : Expr) (ts : List Token) (levels : Nat) (e : Expr)
    (rest : List Token) : Prop :=
  ∀ fuel, ts.length < fuel → Takes n ((grammar n).climb strength fuel left) ts levels e rest

/-- The tokens up to the rest have been read as the beginning of an expression of operators stronger
than given: whatever comes of going on from there comes of the whole. -/
def Opens (n strength : Nat) (ts : List Token) (levels : Nat) (e : Expr) (rest : List Token) :
    Prop :=
  ∀ levels' e' rest', Climbs n strength e rest levels' e' rest' →
    Takes n ((grammar n).expression strength) ts (max levels levels') e' rest'

theorem Climbs.stop (h : Dialect.generic.nextStrength ts ≤ strength) :
    Climbs n strength e ts 0 e ts := by
  intro fuel hfuel
  cases fuel with
  | zero => omega
  | succ fuel =>
    rw [Inside.climb]
    refine Takes.step (p := ahead) rfl ?_
    rw [grammar_dialect, if_pos h]
    exact Takes.pure

theorem Climbs.step (hstronger : strength < Dialect.generic.nextStrength ts)
    (hstep : Takes n ((grammar n).continued e (Dialect.generic.nextStrength ts)) ts levels e' rest)
    (hshorter : rest.length < ts.length) {e'' : Expr}
    (h : Climbs n strength e' rest levels' e'' rest') :
    Climbs n strength e ts (max levels levels') e'' rest' := by
  intro fuel hfuel
  cases fuel with
  | zero => omega
  | succ fuel =>
    rw [Inside.climb]
    refine Takes.step (p := ahead) rfl ?_
    rw [grammar_dialect, if_neg (Nat.not_le.2 hstronger)]
    exact Takes.bind hstep (h fuel (by omega))

namespace Opens

/-- An operand is the beginning of an expression. -/
theorem operand (h : Takes n (grammar n).operandFirst ts levels e rest) :
    Opens n strength ts levels e rest := by
  intro levels' e' rest' hclimbs
  refine Takes.bind h (Takes.step (p := ahead) rfl ?_)
  exact hclimbs _ (Nat.lt_succ_self _)

/-- A stronger operator with what follows it is taken in. -/
theorem continued (h : Opens n strength ts levels e rest)
    (hstronger : strength < Dialect.generic.nextStrength rest)
    (hstep : Takes n ((grammar n).continued e (Dialect.generic.nextStrength rest)) rest levels' e'
      rest')
    (hshorter : rest'.length < rest.length) :
    Opens n strength ts (max levels levels') e' rest' := by
  intro levels'' e'' rest'' hclimbs
  rw [Nat.max_assoc]
  exact h _ _ _ (Climbs.step hstronger hstep hshorter hclimbs)

/-- Before a weaker operator the expression ends. -/
theorem expression (h : Opens n strength ts levels e rest)
    (hweaker : Dialect.generic.nextStrength rest ≤ strength) :
    Takes n ((grammar n).expression strength) ts levels e rest := by
  have hwhole := h _ _ _ (Climbs.stop hweaker)
  rwa [Nat.max_zero] at hwhole

end Opens

end Expressions

end QueryCanvas.Sql
