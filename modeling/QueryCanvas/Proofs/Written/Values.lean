import QueryCanvas.Proofs.Sql.Quote
import QueryCanvas.Proofs.Sql.Unmasking
import QueryCanvas.Proofs.Written.Operands
import QueryCanvas.Sql.Reference

/-!
# Written values

A value stands in a query as a numeral, perhaps with a sign, as a text in quotes, or as a template
parameter, which is a text in quotes once the query is masked.

A list, a range and a condition on a group take over a value as it is written, and what was read of
it is printed.  A number and a parameter are printed as they are written.  So is a word in quotes if
the printer doubles its quotes, and if nothing in it is taken for a parameter in quotes.
-/

set_option autoImplicit false

namespace QueryCanvas.Sql

section Written

open Sql.Parser Lexer

variable {n strength : Nat} {rest : List Token} {s : String} {p : Part Expr}

/-! ## Where values and conditions end -/

/-- What can follow a value or a condition. -/
def conditionEnds : List Lead :=
  [.none, .mark ")", .mark ",", .word "AND", .word "OR", .word "INNER", .word "LEFT", .word "RIGHT",
   .word "FULL", .word "WHERE", .word "GROUP", .word "HAVING", .word "ORDER", .word "LIMIT"]

theorem operandEnds_of_condition (h : lead rest ∈ conditionEnds) : lead rest ∈ operandEnds := by
  have hsub : ∀ x ∈ conditionEnds, x ∈ operandEnds := by decide
  exact hsub _ h

/-- No operator stronger than `AND` follows a condition. -/
theorem strength_conditionEnds (h : lead rest ∈ conditionEnds) :
    Dialect.generic.nextStrength rest ≤ 10 := by
  have hplain : ∀ x ∈ conditionEnds, x ∉ [.word "AT", .word "NOT", .mark "^", .other] ∧
      x.binding ≤ 10 := by decide
  rw [nextStrength_of_lead (hplain _ h).1]
  exact (hplain _ h).2

/-- What can follow a whole expression. -/
def expressionEnds : List Lead :=
  [.none, .mark ")", .mark ",", .word "AS", .word "FROM", .word "WHERE", .word "INNER",
   .word "LEFT", .word "RIGHT", .word "FULL", .word "GROUP", .word "HAVING", .word "ORDER",
   .word "LIMIT", .word "ASC", .word "DESC"]

theorem operandEnds_of_expression (h : lead rest ∈ expressionEnds) : lead rest ∈ operandEnds := by
  have hsub : ∀ x ∈ expressionEnds, x ∈ operandEnds := by decide
  exact hsub _ h

/-- No operator follows a whole expression. -/
theorem strength_expressionEnds (h : lead rest ∈ expressionEnds) :
    Dialect.generic.nextStrength rest ≤ 0 := by
  have hplain : ∀ x ∈ expressionEnds, x ∉ [.word "AT", .word "NOT", .mark "^", .other] ∧
      x.binding ≤ 0 := by decide
  rw [nextStrength_of_lead (hplain _ h).1]
  exact (hplain _ h).2

/-! ## Values -/

/-- How a value is written, and what it is read as. -/
inductive Constant : String → Part Expr → Prop
  | number (s : String) (hs : Numeral s.toList) :
      Constant s ⟨[.number s false], 0, .number s false⟩
  | signed (negative : Bool) (s : String) (hs : Numeral s.toList) :
      Constant ((if negative then "-" else "+") ++ s)
        ⟨[.mark (if negative then "-" else "+"), .number s false], 1,
          .signed negative (.number s false)⟩
  | text (s : String) : Constant (quoted '\'' s) ⟨[.text .plain s], 0, .text s⟩
  | parameter (s : String) (hs : Parameter.isParameter s) :
      Constant s ⟨[.text .plain s], 0, .text s⟩

theorem operandOf_eq (c : OperatorClass) :
    (grammar n).operandOf c = (grammar n).operand (Dialect.generic.strength c) := by
  rw [Inside.operandOf, grammar_dialect]

theorem operandFirst_signed (h : lead rest ∈ conditionEnds) (negative : Bool) :
    Takes n (grammar n).operandFirst
      (.mark (if negative then "-" else "+") :: .number s false :: rest) 1
      (.signed negative (.number s false)) rest := by
  have hrest := operandEnds_of_condition h
  have hnumber : Takes n ((grammar n).operandOf .times) (.number s false :: rest) 1
      (.number s false) rest := by
    rw [operandOf_eq]
    exact Takes.operand fun n => (Opens.operand (operandFirst_number hrest)).expression
      (Nat.le_trans (strength_conditionEnds h) (by decide))
  refine operandFirst_untyped (typedText_of_lead (by cases negative <;> simp [lead])) ?_ hrest
  cases negative <;> exact Takes.last (f := fun e => pure (Expr.signed _ e)) hnumber rfl

namespace Constant

theorem takes (h : Constant s p) (hrest : lead rest ∈ conditionEnds) :
    Takes n (grammar n).operandFirst (p.tokens ++ rest) p.levels p.value rest := by
  cases h with
  | number s hs => exact operandFirst_number (operandEnds_of_condition hrest)
  | signed negative s hs => exact operandFirst_signed hrest negative
  | text s => exact operandFirst_text (operandEnds_of_condition hrest)
  | parameter s hs => exact operandFirst_text (operandEnds_of_condition hrest)

theorem cut (h : Constant s p) : Cut .generic s.toList p.tokens := by
  cases h with
  | number s hs => simpa using Cut.number hs (by simp) .done
  | signed negative s hs =>
    have hnumber : Cut .generic s.toList [.number s false] := by
      simpa using Cut.number hs (by simp) .done
    obtain ⟨c, w, hw, hc⟩ := head_numeral hs
    rw [hw] at hnumber
    rw [String.toList_append, hw]
    cases negative with
    | true => exact Cut.signed (.inl rfl) hc hnumber
    | false => exact Cut.signed (.inr rfl) hc hnumber
  | text s =>
    simpa using Cut.text (s := s) (by simp [Dialect.hasBackslash]) (by simp) .done
  | parameter s hs => simpa using Cut.parameter hs (by simp) .done

end Constant

/-- Every value of a filter is written so that it is read as itself. -/
theorem exists_constant (value : String) :
    ∃ p, Constant (formatValue value) p ∧ p.value.literal = .ok value := by
  unfold formatValue
  by_cases hparameter : Parameter.isParameter value
  · rw [hparameter, Bool.true_or, if_pos rfl]
    exact ⟨_, .parameter value hparameter, rfl⟩
  · by_cases hnumber : isNumber value
    · rw [hnumber, Bool.or_true, if_pos rfl]
      obtain ⟨sign, w, hvalue, hsign, hw⟩ := numeral_of_isNumber hnumber
      have hnumeral : Numeral (String.ofList w).toList := by rwa [String.toList_ofList]
      have hwhole : value = String.ofList sign ++ String.ofList w := by
        rw [← String.ofList_append, ← hvalue, String.ofList_toList]
      simp only [List.mem_cons, List.not_mem_nil, or_false] at hsign
      rw [hwhole]
      rcases hsign with rfl | rfl | rfl
      · exact ⟨_, .number _ hnumeral, rfl⟩
      · exact ⟨_, .signed true _ hnumeral, rfl⟩
      · exact ⟨_, .signed false _ hnumeral, rfl⟩
    · rw [if_neg (by simp [hparameter, hnumber])]
      exact ⟨_, .text value, rfl⟩

end Written

/-! ## Plain values -/

/-- A word whose quotes stand alone: none follows another one or a backslash, which the printer
takes for a quote that is doubled or marked already, and none stands with a brace in one word, which
could be taken for a parameter in quotes. -/
structure PlainWord (w : String) : Prop where
  single : ¬['\'', '\''] <:+: w.toList
  unmarked : ¬['\\', '\''] <:+: w.toList
  parameter : '\'' ∈ w.toList → '{' ∉ w.toList

/-- A number, a parameter, or a word in quotes. -/
def PlainValue (s : String) : Prop :=
  Parameter.isParameter s ∨ isNumber s ∨ ∃ w : String, PlainWord w ∧ s = quoted '\'' w

theorem PlainWord.of_unquoted {w : String} (h : '\'' ∉ w.toList) : PlainWord w :=
  ⟨fun hin => h (hin.subset (by simp)), fun hin => h (hin.subset (by simp)),
    fun hin => absurd hin h⟩

/-! ## Printed words -/

/-- The printer doubles quotes that stand alone. -/
theorem doubleQuotes_eq_doubled {cs : List Char} (hsingle : ¬['\'', '\''] <:+: cs)
    (hunmarked : ¬['\\', '\''] <:+: cs) :
    ∀ after : Bool, (after → cs.head? ≠ some '\'') →
      doubleQuotes '\'' after cs = doubled '\'' cs := by
  induction cs with
  | nil => exact fun _ _ => rfl
  | cons c cs ih =>
    intro after hafter
    have hrest := ih (fun h => hsingle (h.trans (List.suffix_cons c cs).isInfix))
      fun h => hunmarked (h.trans (List.suffix_cons c cs).isInfix)
    have hnext : ∀ x : Char, ¬[x, '\''] <:+: c :: cs → c = x → cs.head? ≠ some '\'' := by
      rintro x h rfl hhead
      obtain ⟨cs, rfl⟩ := List.head?_eq_some_iff.1 hhead
      exact h (List.prefix_append [c, '\''] cs).isInfix
    by_cases hc : c = '\''
    · have halone := hrest false nofun
      have hhead := hnext '\'' hsingle hc
      subst hc
      have hplain : after = false := by simpa using hafter
      rw [hplain, doubleQuotes.eq_def]
      cases cs with
      | nil => rfl
      | cons c cs =>
        have hother : c ≠ '\'' := by simpa using hhead
        simp only [ne_eq, not_true_eq_false, if_false, Bool.false_eq_true, hother]
        rw [halone]
        rfl
    · have hmarked : ((c == '\\') = true) → cs.head? ≠ some '\'' := fun h =>
        hnext '\\' hunmarked (by simpa using h)
      rw [doubleQuotes.eq_def]
      simp only [ne_eq, hc, not_false_eq_true, if_true]
      rw [hrest _ hmarked, doubled, doubled, List.flatMap_cons, if_neg hc]
      rfl

theorem textLiteral_eq {w : String} (h : PlainWord w) : textLiteral w = quoted '\'' w := by
  rw [textLiteral, enclosed, doubleQuotes_eq_doubled h.single h.unmarked false nofun,
    ← String.toList_inj, String.toList_ofList, toList_quoted]

/-! ## Masked texts that are read -/

/-- Where no quote stands, nothing is unmasked. -/
theorem unmaskChars_unquoted {cs : List Char} (h : '\'' ∉ cs) (r : List Char) :
    Parameter.unmaskChars (cs ++ r) = cs ++ Parameter.unmaskChars r := by
  induction cs with
  | nil => rfl
  | cons c cs ih =>
    rw [List.mem_cons, not_or] at h
    rw [List.cons_append, Parameter.unmaskChars_other (Ne.symm h.1), ih h.2, List.cons_append]

theorem unmask_unquoted {s : String} (h : '\'' ∉ s.toList) : Parameter.unmask s = s := by
  have hchars := unmaskChars_unquoted h []
  rw [List.append_nil, Parameter.unmaskChars, List.append_nil] at hchars
  rw [Parameter.unmask, hchars, String.ofList_toList]

/-- A parameter begins with a brace. -/
theorem brace_mem_of_at? {cs rest : List Char} {p : Parameter}
    (h : Parameter.at? cs = some (p, rest)) : '{' ∈ cs := by
  obtain ⟨body, hbody, -⟩ := Parameter.written_eq h
  rw [Parameter.at?_written h, hbody]
  exact List.mem_cons_self

/-- Where no brace stands, nothing is unmasked. -/
theorem unmaskChars_unbraced {cs : List Char} (h : '{' ∉ cs) : Parameter.unmaskChars cs = cs := by
  induction cs with
  | nil => rw [Parameter.unmaskChars]
  | cons c cs ih =>
    rw [List.mem_cons, not_or] at h
    by_cases hc : c = '\''
    · rw [hc, Parameter.unmaskChars_quote fun q r hq => h.2 (brace_mem_of_at? hq), ih h.2]
    · rw [Parameter.unmaskChars_other hc, ih h.2]

/-- A word is printed as a parameter if it is one, and between quotes otherwise. -/
theorem printed_text {w : String} (h : PlainWord w) :
    (Expr.text w).printed = if Parameter.isParameter w then w else quoted '\'' w := by
  rw [Expr.printed, Expr.print, textLiteral_eq h, Parameter.unmask, toList_quoted]
  by_cases hquote : '\'' ∈ w.toList
  · have hbrace : '{' ∉ w.toList := h.parameter hquote
    have hno : ¬Parameter.isParameter w := by
      rw [Parameter.isParameter_iff]
      rintro ⟨p, hp, -⟩
      exact hbrace (brace_mem_of_at? hp)
    have hdoubled : '{' ∉ '\'' :: doubled '\'' w.toList ++ ['\''] := by
      simp only [doubled, List.mem_append, List.mem_cons, List.mem_flatMap, not_or]
      refine ⟨⟨by decide, ?_⟩, by simp⟩
      rintro ⟨c, hc, hmem⟩
      split at hmem
      · simp at hmem
      · exact hbrace (List.mem_singleton.1 hmem ▸ hc)
    rw [if_neg hno, unmaskChars_unbraced hdoubled, ← toList_quoted, String.ofList_toList]
  · rw [doubled_eq_self hquote]
    split
    · rename_i hparameter
      obtain ⟨p, hp, hwritten⟩ := Parameter.isParameter_iff.1 hparameter
      rw [← hwritten, List.cons_append, Parameter.unmaskChars_enclosed hp, Parameter.unmaskChars,
        List.append_nil, hwritten, String.ofList_toList]
    · rename_i hparameter
      have hnone : ∀ q r, Parameter.at? (w.toList ++ ['\'']) ≠ some (q, '\'' :: r) := by
        intro q r hq
        have hwritten := Parameter.at?_written hq
        obtain ⟨hsame, -⟩ := (List.append_cons_inj_of_notMem hquote (by simp)).1 hwritten
        refine hparameter (Parameter.isParameter_iff.2 ⟨q, ?_, hsame.symm⟩)
        rw [hsame]
        simpa using Parameter.at?_written_append hq []
      have hlast : Parameter.unmaskChars ['\''] = ['\''] := by
        rw [Parameter.unmaskChars_quote (by rintro q r ⟨⟩), Parameter.unmaskChars]
      rw [List.cons_append, Parameter.unmaskChars_quote hnone, unmaskChars_unquoted hquote, hlast,
        ← String.toList_inj, String.toList_ofList, toList_quoted, doubled_eq_self hquote,
        List.cons_append]

/-! ## Printed values -/

theorem quote_not_mem_numeral {cs : List Char} (h : Lexer.Numeral cs) : '\'' ∉ cs := by
  have hdigits : ∀ {ds : List Char}, (∀ c ∈ ds, c.isDigit) → '\'' ∉ ds :=
    fun hds hmem => absurd (hds _ hmem) (by decide)
  have hpower : ∀ {power : List Char}, Lexer.Power power → '\'' ∉ power := by
    intro power hpower
    cases hpower with
    | none => simp
    | signed e sign ds he hsign hne hds =>
      have he' : '\'' ≠ e := by rcases he with rfl | rfl <;> decide
      have hsign' : ∀ sign ∈ [[], ['+'], ['-']], '\'' ∉ sign := by decide
      simp [he', hsign' sign hsign, hdigits hds]
  cases h with
  | whole ds power hne hds hp => simp [hdigits hds, hpower hp]
  | broken ds fraction power hne hds hfraction hp =>
    simp [hdigits hds, hdigits hfraction, hpower hp]

/-- A printed value is read as the same. -/
theorem Constant.printed {s : String} {p : Part Expr} (h : Constant s p)
    (hword : ∀ w, p.value = .text w → PlainWord w) : Constant p.value.printed p := by
  have hnumber : ∀ s : String, (Expr.number s false).print = s :=
    fun s => String.append_empty
  cases h with
  | number s hs =>
    rw [Expr.printed, hnumber, unmask_unquoted (quote_not_mem_numeral hs)]
    exact .number s hs
  | signed negative s hs =>
    have hsigned : '\'' ∉ ((if negative then "-" else "+") ++ s).toList := by
      rw [String.toList_append, List.mem_append, not_or]
      exact ⟨by cases negative <;> decide, quote_not_mem_numeral hs⟩
    rw [Expr.printed, Expr.print, hnumber, unmask_unquoted hsigned]
    exact .signed negative s hs
  | text s =>
    rw [printed_text (hword s rfl)]
    split
    · rename_i hparameter
      exact .parameter s hparameter
    · exact .text s
  | parameter s hs =>
    rw [printed_text (hword s rfl), if_pos hs]
    exact .parameter s hs

/-- Such a value is one that can be read, before and after it is printed. -/
theorem exists_constant_of_plain {s : String} (h : PlainValue s) :
    ∃ p, Constant s p ∧ ∀ w, p.value = .text w → PlainWord w := by
  rcases h with h | h | ⟨w, hw, rfl⟩
  · refine ⟨_, .parameter s h, fun w hw => ?_⟩
    obtain rfl := Expr.text.inj hw
    obtain ⟨p, hp, hwritten⟩ := Parameter.isParameter_iff.1 h
    refine .of_unquoted ?_
    rw [← hwritten]
    exact Parameter.isQuote_not_mem_written hp (by decide)
  · obtain ⟨sign, w, hs, hsign, hw⟩ := Lexer.numeral_of_isNumber h
    have hnumeral : Lexer.Numeral (String.ofList w).toList := by rwa [String.toList_ofList]
    have hwhole : s = String.ofList sign ++ String.ofList w := by
      rw [← String.ofList_append, ← hs, String.ofList_toList]
    simp only [List.mem_cons, List.not_mem_nil, or_false] at hsign
    rw [hwhole]
    rcases hsign with rfl | rfl | rfl
    · exact ⟨_, .number _ hnumeral, nofun⟩
    · exact ⟨_, .signed true _ hnumeral, nofun⟩
    · exact ⟨_, .signed false _ hnumeral, nofun⟩
  · exact ⟨_, .text w, fun s hs => Expr.text.inj hs ▸ hw⟩

end QueryCanvas.Sql
