import QueryCanvas.Proofs.Sql.Masking
import QueryCanvas.Proofs.Sql.Quote
import QueryCanvas.Proofs.Written.Lexed

/-!
# Texts and their tokens

What becomes of a text when its parameters are put between single quotes, and the tokens into which
it is cut then, as a relation that is built up piece by piece.  Most characters of code stay as they
are, a text in quotes stays as it is whatever it holds, and a parameter gets its quotes.  Pieces can
be put together where a blank, a comma or a closing parenthesis follows.
-/

set_option autoImplicit false

namespace QueryCanvas.Parameter

/-! ## Putting parameters between quotes -/

open Sql (doubled)

/-- The characters from a mode on, with each parameter between single quotes. -/
def masked (mode : Mode) (cs : List Char) : List Char := (scan mode cs).1.flatMap Piece.masked

/-- The characters of code at which a comment, a parameter or quotes can begin. -/
def isLoud (c : Char) : Bool := c ∈ ['-', '/', '{', '\'', '"', '`']

theorem mask_eq_masked (s : String) : (mask s).toList = masked .code s.toList := toList_mask s

@[simp] theorem masked_nil (mode : Mode) : masked mode [] = [] := by
  simp [masked, scan]

/-- A character that begins neither a comment nor a parameter stays as it is. -/
theorem masked_code {c : Char} {cs : List Char} (hdash : c = '-' → cs.head? ≠ some '-')
    (hslash : c = '/' → cs.head? ≠ some '*') (hat : at? (c :: cs) = none) :
    masked .code (c :: cs) = c :: masked (if isQuote c then .quoted c else .code) cs := by
  unfold masked
  rw [scan.eq_def]
  split
  · simp_all
  · simp_all
  · simp_all
  · rename_i heq
    obtain ⟨rfl, rfl⟩ := List.cons.inj heq
    split
    · simp_all
    · simp [Piece.masked]
  all_goals simp_all

theorem at?_eq_none {c : Char} (h : c ≠ '{') (cs : List Char) : at? (c :: cs) = none := by
  unfold at?
  split
  · simp_all
  · rfl

theorem masked_quiet {c : Char} (h : isLoud c = false) (cs : List Char) :
    masked .code (c :: cs) = c :: masked .code cs := by
  simp only [isLoud, List.mem_cons, List.not_mem_nil, or_false, decide_eq_false_iff_not,
    not_or] at h
  have hquote : isQuote c = false := by simp [isQuote, h]
  rw [masked_code (fun hc => (h.1 hc).elim) (fun hc => (h.2.1 hc).elim) (at?_eq_none h.2.2.1 cs),
    hquote]
  rfl

theorem masked_quiet_append {w : List Char} (h : ∀ c ∈ w, isLoud c = false) (cs : List Char) :
    masked .code (w ++ cs) = w ++ masked .code cs := by
  induction w with
  | nil => rfl
  | cons c w ih =>
    rw [List.cons_append, masked_quiet (h c (by simp)), ih fun d hd => h d (by simp [hd])]
    rfl

/-- A dash stays as it is, unless it begins a comment. -/
theorem masked_dash {cs : List Char} (h : cs.head? ≠ some '-') :
    masked .code ('-' :: cs) = '-' :: masked .code cs :=
  masked_code (fun _ => h) (by simp) (at?_eq_none (by decide) cs)

theorem masked_quote (cs : List Char) :
    masked .code ('\'' :: cs) = '\'' :: masked (.quoted '\'') cs :=
  masked_code (by simp) (by simp) (at?_eq_none (by decide) cs)

theorem masked_quoted (mark c : Char) (cs : List Char) :
    masked (.quoted mark) (c :: cs) =
      c :: masked (if c = mark then .code else .quoted mark) cs := by
  unfold masked
  rw [scan.eq_def]
  simp [Piece.masked]

/-- What stands between quotes stays as it is. -/
theorem masked_doubled (v cs : List Char) :
    masked (.quoted '\'') (doubled '\'' v ++ '\'' :: cs) =
      doubled '\'' v ++ '\'' :: masked .code cs := by
  induction v with
  | nil => simp [doubled, masked_quoted]
  | cons c v ih =>
    rw [doubled, List.flatMap_cons, ← doubled]
    by_cases hc : c = '\''
    · rw [if_pos hc]
      simp only [List.cons_append, List.nil_append, masked_quoted, ↓reduceIte, masked_quote, ih]
    · rw [if_neg hc]
      simp only [List.cons_append, List.nil_append, hc, masked_quoted, ↓reduceIte, ih]

theorem masked_text (s : String) (cs : List Char) :
    masked .code ((Sql.quoted '\'' s).toList ++ cs) =
      (Sql.quoted '\'' s).toList ++ masked .code cs := by
  rw [Sql.toList_quoted]
  simp only [List.cons_append, List.append_assoc, List.nil_append, masked_quote, masked_doubled]

theorem masked_parameter {cs rest : List Char} {p : Parameter} (h : at? cs = some (p, rest)) :
    masked .code cs = '\'' :: p.written ++ '\'' :: masked .code rest := by
  unfold masked
  rw [scan.eq_def]
  split <;> simp_all [at?]
  split <;> simp_all [Piece.masked]

theorem masked_comment {w : List Char} (hw : ∀ c ∈ w, c ≠ '*') (cs : List Char) :
    masked .code ('/' :: '*' :: (w ++ '*' :: '/' :: cs)) =
      '/' :: '*' :: (w ++ '*' :: '/' :: masked .code cs) := by
  have hbody : masked .blockComment (w ++ '*' :: '/' :: cs) =
      w ++ '*' :: '/' :: masked .code cs := by
    induction w with
    | nil => simp [masked, scan, Piece.masked]
    | cons c w ih =>
      have hc := hw c (by simp)
      have hrest := ih fun x hx => hw x (by simp [hx])
      unfold masked at hrest ⊢
      rw [List.cons_append, scan.eq_def]
      simp_all [Piece.masked]
  rw [← hbody]
  simp [masked, scan, Piece.masked]

/-! ## Where a parameter stands -/

/-- A whole text that is a parameter. -/
theorem exists_of_isParameter {s : String} (h : isParameter s) :
    ∃ p, p.written = s.toList ∧ ∀ more, at? (s.toList ++ more) = some (p, more) := by
  obtain ⟨p, hat, hwritten⟩ := isParameter_iff.1 h
  exact ⟨p, hwritten, fun more => hwritten ▸ at?_written_append hat more⟩

end QueryCanvas.Parameter

namespace QueryCanvas.Sql

/-! ## Pieces and their tokens -/

open Lexer

/-- The text consists of pieces that are cut into these tokens. -/
inductive Cut (d : Dialect) : List Char → List Token → Prop
  | done : Cut d [] []
  | gap {c : Char} {cs : List Char} {ts : List Token} (hc : c = ' ' ∨ c = '\n') (h : Cut d cs ts) :
      Cut d (c :: cs) ts
  | comment {w cs : List Char} {ts : List Token} (hw : ∀ c ∈ w, c ≠ '/' ∧ c ≠ '*')
      (h : Cut d cs ts) : Cut d ('/' :: '*' :: (w ++ '*' :: '/' :: cs)) ts
  | word {s : String} {cs : List Char} {ts : List Token} (hs : isPlainName s)
      (hcs : ∀ c ∈ cs.head?, c ∈ wordEnds) (h : Cut d cs ts) :
      Cut d (s.toList ++ cs) (.word (.bare s) :: ts)
  | number {w cs : List Char} {ts : List Token} (hw : Numeral w)
      (hcs : ∀ c ∈ cs.head?, c ∈ pieceEnds) (h : Cut d cs ts) :
      Cut d (w ++ cs) (.number (String.ofList w) false :: ts)
  | signed {c x : Char} {cs : List Char} {ts : List Token} (hc : c = '-' ∨ c = '+')
      (hx : x.isDigit ∨ x = '.') (h : Cut d (x :: cs) ts) :
      Cut d (c :: x :: cs) (.mark (String.singleton c) :: ts)
  | mark {c : Char} {cs : List Char} {ts : List Token} (hc : c ∈ ['(', ')', ',', '*'])
      (h : Cut d cs ts) : Cut d (c :: cs) (.mark (String.singleton c) :: ts)
  | point {cs : List Char} {ts : List Token}
      (hcs : ∀ c ∈ cs.head?, Parameter.isLoud c = false ∧ c.isDigit = false) (h : Cut d cs ts) :
      Cut d ('.' :: cs) (.mark "." :: ts)
  | compare {cs : List Char} {ts : List Token} (c : Comparison) (h : Cut d (' ' :: cs) ts) :
      Cut d (c.sql.toList ++ ' ' :: cs) (.mark c.sql :: ts)
  | text {s : String} {cs : List Char} {ts : List Token} (hs : d.hasBackslash → '\\' ∉ s.toList)
      (hcs : ∀ c ∈ cs.head?, c ∈ pieceEnds) (h : Cut d cs ts) :
      Cut d ((quoted '\'' s).toList ++ cs) (.text .plain s :: ts)
  | parameter {s : String} {cs : List Char} {ts : List Token} (hs : Parameter.isParameter s)
      (hcs : ∀ c ∈ cs.head?, c ∈ pieceEnds) (h : Cut d cs ts) :
      Cut d (s.toList ++ cs) (.text .plain s :: ts)

namespace Cut

variable {d : Dialect}

/-! ## Putting pieces together -/

theorem head_append {p : Char → Prop} {cs cs' : List Char} (h : ∀ c ∈ cs.head?, p c)
    (h' : ∀ c ∈ cs'.head?, p c) : ∀ c ∈ (cs ++ cs').head?, p c := by
  cases cs with
  | nil => exact h'
  | cons x cs => exact h

theorem append {cs cs' : List Char} {ts ts' : List Token} (h : Cut d cs ts)
    (h' : Cut d cs' ts') (hends : ∀ c ∈ cs'.head?, c ∈ pieceEnds) :
    Cut d (cs ++ cs') (ts ++ ts') := by
  have hword : ∀ c ∈ cs'.head?, c ∈ wordEnds := by
    have hsub : ∀ c ∈ pieceEnds, c ∈ wordEnds := List.all_iff_forall_prop.1 (by decide)
    exact fun c hc => hsub c (hends c hc)
  have hplain : ∀ c ∈ cs'.head?, Parameter.isLoud c = false ∧ c.isDigit = false := by
    have hsub : ∀ c ∈ pieceEnds, Parameter.isLoud c = false ∧ c.isDigit = false :=
      List.all_iff_forall_prop.1 (by decide)
    exact fun c hc => hsub c (hends c hc)
  induction h with
  | done => exact h'
  | gap hc _ ih => exact gap hc ih
  | comment hw _ ih =>
    rw [List.cons_append, List.cons_append, List.append_assoc]
    exact comment hw ih
  | word hs hcs _ ih =>
    rw [List.append_assoc]
    exact word hs (head_append hcs hword) ih
  | number hw hcs _ ih =>
    rw [List.append_assoc]
    exact number hw (head_append hcs hends) ih
  | signed hc hx _ ih => exact signed hc hx ih
  | mark hc _ ih => exact mark hc ih
  | point hcs _ ih => exact point (head_append hcs hplain) ih
  | compare c _ ih =>
    rw [List.append_assoc]
    exact compare c ih
  | text hs hcs _ ih =>
    rw [List.append_assoc]
    exact text hs (head_append hcs hends) ih
  | parameter hs hcs _ ih =>
    rw [List.append_assoc]
    exact parameter hs (head_append hcs hends) ih

/-! ## What the lexer finds -/

/-- A text begins with the same character once its parameters are between quotes, unless it begins
with a parameter. -/
theorem head_masked {cs : List Char} (h : ∀ c ∈ cs.head?, Parameter.isLoud c = false) :
    (Parameter.masked .code cs).head? = cs.head? := by
  cases cs with
  | nil => simp
  | cons c cs => rw [Parameter.masked_quiet (h c rfl)]; rfl

/-- Whatever the number of steps, as long as it is large enough, the lexer finds these tokens. -/
def Found (d : Dialect) (cs : List Char) (ts : List Token) : Prop :=
  ∀ n, cs.length ≤ n → tokens? d n cs = some ts

theorem found_step {cs rest : List Char} {t : Option Token} {ts : List Token}
    (hstep : step? d cs = some (t, rest)) (hshorter : rest.length < cs.length)
    (h : Found d rest ts) : Found d cs (t.toList ++ ts) := by
  intro n hn
  cases n with
  | zero => omega
  | succ n =>
    cases cs with
    | nil => simp at hshorter
    | cons c cs =>
      rw [List.length_cons] at hn hshorter
      simp [tokens?, hstep, h n (by omega)]

theorem quiet_of_plainName {s : String} (hs : isPlainName s) :
    ∀ c ∈ s.toList, Parameter.isLoud c = false := by
  intro c hc
  simp only [isPlainName, Bool.and_eq_true, List.all_eq_true] at hs
  have hpart := hs.2 c hc
  simp only [Parameter.isLoud, decide_eq_false_iff_not]
  intro hmem
  have hnone : ∀ x ∈ ['-', '/', '{', '\'', '"', '`'], Parameter.isNamePart x = false :=
    List.all_iff_forall_prop.1 (by decide)
  rw [hnone c hmem] at hpart
  cases hpart

theorem masked_digits {w : List Char} (hw : ∀ c ∈ w, c.isDigit) (cs : List Char) :
    Parameter.masked .code (w ++ cs) = w ++ Parameter.masked .code cs := by
  refine Parameter.masked_quiet_append (fun c hc => ?_) cs
  have hcode := code_of_digit (.inl (hw c hc))
  have hlist : ∀ x ∈ ['-', '/', '{', '\'', '"', '`'],
      x.toNat < 46 ∨ 57 < x.toNat ∨ x.toNat = 47 := List.all_iff_forall_prop.1 (by decide)
  simp only [Parameter.isLoud, decide_eq_false_iff_not]
  intro hmem
  have hx := hlist c hmem
  omega

theorem masked_power {power : List Char} (hpower : Power power) (cs : List Char) :
    Parameter.masked .code (power ++ cs) = power ++ Parameter.masked .code cs := by
  cases hpower with
  | none => rfl
  | signed e sign digits he hsign hne hdigits =>
    have hletter : Parameter.isLoud e = false := by rcases he with rfl | rfl <;> decide
    simp only [List.cons_append, List.append_assoc, Parameter.masked_quiet hletter]
    simp only [List.mem_cons, List.not_mem_nil, or_false] at hsign
    rcases hsign with rfl | rfl | rfl
    · rw [List.nil_append, masked_digits hdigits, List.nil_append]
    · simp only [List.cons_append, List.nil_append, Parameter.masked_quiet (c := '+') (by decide),
        masked_digits hdigits]
    · have hhead : (digits ++ cs).head? ≠ some '-' := by
        cases digits with
        | nil => exact (hne rfl).elim
        | cons c digits =>
          have hc := hdigits c (by simp)
          rw [List.cons_append, List.head?_cons, ne_eq, Option.some.injEq]
          rintro rfl
          exact absurd hc (by decide)
      simp only [List.cons_append, List.nil_append, Parameter.masked_dash hhead,
        masked_digits hdigits]

theorem masked_numeral {w : List Char} (hw : Numeral w) (cs : List Char) :
    Parameter.masked .code (w ++ cs) = w ++ Parameter.masked .code cs := by
  cases hw with
  | whole digits power hne hdigits hpower =>
    rw [List.append_assoc, masked_digits hdigits, masked_power hpower, List.append_assoc]
  | broken digits fraction power hne hdigits hfraction hpower =>
    simp only [List.append_assoc, List.cons_append]
    rw [masked_digits hdigits, Parameter.masked_quiet (by decide), masked_digits hfraction,
      masked_power hpower]

theorem doubled_eq_self {mark : Char} {cs : List Char} (h : mark ∉ cs) : doubled mark cs = cs := by
  induction cs with
  | nil => rfl
  | cons c cs ih =>
    rw [List.mem_cons, not_or] at h
    rw [doubled, List.flatMap_cons, if_neg (Ne.symm h.1), ← doubled, ih h.2]
    rfl

/-- A parameter is an ordinary text once it is between quotes. -/
theorem masked_whole {s : String} (hs : Parameter.isParameter s) (cs : List Char) :
    '\'' ∉ s.toList ∧ '\\' ∉ s.toList ∧ Parameter.masked .code (s.toList ++ cs) =
      (quoted '\'' s).toList ++ Parameter.masked .code cs := by
  obtain ⟨p, hwritten, hat⟩ := Parameter.exists_of_isParameter hs
  have hchar : ∀ c ∈ s.toList, c = '{' ∨ c = '}' ∨ Text.isBlank c ∨ Parameter.isNamePart c := by
    intro c hc
    rw [← hwritten] at hc
    exact Parameter.mem_written (hat []) hc
  have hquote : '\'' ∉ s.toList := fun h => absurd (hchar _ h) (by decide)
  refine ⟨hquote, fun h => absurd (hchar _ h) (by decide), ?_⟩
  rw [Parameter.masked_parameter (hat cs), hwritten, toList_quoted, doubled_eq_self hquote]
  simp

theorem found {cs : List Char} {ts : List Token} (h : Cut d cs ts) :
    Found d (Parameter.masked .code cs) ts := by
  have hends : ∀ c ∈ pieceEnds, Parameter.isLoud c = false ∧ c ≠ '\'' :=
    List.all_iff_forall_prop.1 (by decide)
  induction h with
  | done =>
    intro n _
    cases n <;> simp [tokens?]
  | gap hc _ ih =>
    rw [Parameter.masked_quiet (by rcases hc with rfl | rfl <;> decide)]
    exact found_step (step?_gap hc _) (by simp) ih
  | comment hw _ ih =>
    rw [Parameter.masked_comment fun c hc => (hw c hc).2]
    refine found_step (step?_comment hw _) ?_ ih
    simp only [List.length_cons, List.length_append]
    omega
  | word hs hcs _ ih =>
    rw [Parameter.masked_quiet_append (quiet_of_plainName hs)]
    have hquiet : ∀ c ∈ wordEnds, Parameter.isLoud c = false :=
      List.all_iff_forall_prop.1 (by decide)
    refine found_step (step?_word hs ?_) ?_ ih
    · rw [head_masked fun c hc => hquiet c (hcs c hc)]
      exact hcs
    · obtain ⟨c, w, hlist, -⟩ := head_plain hs
      simp only [hlist, List.length_append, List.length_cons]
      omega
  | number hw hcs _ ih =>
    rw [masked_numeral hw]
    refine found_step (step?_number hw ?_) ?_ ih
    · rw [head_masked fun c hc => (hends c (hcs c hc)).1]
      exact hcs
    · obtain ⟨c, rest, rfl, -⟩ := head_numeral hw
      simp only [List.length_append, List.length_cons]
      omega
  | @signed c x cs ts hc hx _ ih =>
    have hcode := code_of_digit hx
    have hquiet : Parameter.isLoud x = false := by
      have hlist : ∀ y ∈ ['-', '/', '{', '\'', '"', '`'],
          y.toNat < 46 ∨ 57 < y.toNat ∨ y.toNat = 47 := List.all_iff_forall_prop.1 (by decide)
      simp only [Parameter.isLoud, decide_eq_false_iff_not]
      intro hmem
      have hy := hlist x hmem
      omega
    have hmasked : Parameter.masked .code (c :: x :: cs) =
        c :: Parameter.masked .code (x :: cs) := by
      rcases hc with rfl | rfl
      · refine Parameter.masked_dash ?_
        rw [List.head?_cons, ne_eq, Option.some.injEq]
        rintro rfl
        exact absurd hquiet (by decide)
      · exact Parameter.masked_quiet (by decide) _
    rw [hmasked, Parameter.masked_quiet hquiet] at *
    exact found_step (step?_signed hc hx _) (by simp) ih
  | mark hc _ ih =>
    have hquiet : ∀ c ∈ ['(', ')', ',', '*'], Parameter.isLoud c = false :=
      List.all_iff_forall_prop.1 (by decide)
    rw [Parameter.masked_quiet (hquiet _ hc)]
    exact found_step (step?_mark hc _) (by simp) ih
  | point hcs _ ih =>
    rw [Parameter.masked_quiet (by decide)]
    refine found_step (step?_point ?_) (by simp) ih
    rw [head_masked fun c hc => (hcs c hc).1]
    exact fun c hc => (hcs c hc).2
  | compare c _ ih =>
    have hquiet : ∀ x ∈ c.sql.toList, Parameter.isLoud x = false := by
      cases c <;> exact List.all_iff_forall_prop.1 (by decide)
    rw [Parameter.masked_quiet_append hquiet]
    rw [Parameter.masked_quiet (by decide)] at ih ⊢
    refine found_step (step?_compare c _) ?_ ih
    rw [List.length_append]
    cases c <;> simp [Comparison.sql, Comparison.toFilterOperator, FilterOperator.sql]
  | text hs hcs _ ih =>
    rw [Parameter.masked_text]
    refine found_step (step?_text hs ?_) ?_ ih
    · rw [head_masked fun c hc => (hends c (hcs c hc)).1]
      exact fun hhead => (hends _ (hcs _ hhead)).2 rfl
    · simp only [toList_quoted, List.cons_append, List.length_cons, List.length_append]
      omega
  | parameter hs hcs _ ih =>
    obtain ⟨-, hback, hmasked⟩ := masked_whole hs _
    rw [hmasked]
    refine found_step (step?_text (fun _ => hback) ?_) ?_ ih
    · rw [head_masked fun c hc => (hends c (hcs c hc)).1]
      exact fun hhead => (hends _ (hcs _ hhead)).2 rfl
    · simp only [toList_quoted, List.cons_append, List.length_cons, List.length_append]
      omega

/-- The tokens of a text with its parameters between quotes. -/
theorem tokenize?_mask {s : String} {ts : List Token} (h : Cut d s.toList ts) :
    tokenize? d (Parameter.mask s) = some ts := by
  have hfound := h.found
  rw [tokenize?, Parameter.mask_eq_masked]
  exact hfound _ (by rw [← Parameter.mask_eq_masked, String.length_toList])

end Cut

end QueryCanvas.Sql
