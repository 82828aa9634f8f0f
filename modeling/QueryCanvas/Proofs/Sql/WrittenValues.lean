import QueryCanvas.Proofs.Sql.Masking
import QueryCanvas.Proofs.Sql.OneCondition
import QueryCanvas.Proofs.Sql.WholeLines

/-!
# Written values among the tokens

Every dialect cuts the numeral of a double into a sign, if it has one, and one number with the very
digits that are written, and a parameter, which stands between quotes by then, into one text.  Any
other value is cut into one text too.
-/

set_option autoImplicit false

namespace QueryCanvas

namespace Parameter

/-- A text without parameters stays as it is when its parameters are put between quotes. -/
theorem flatMap_masked {m : Mode} {cs : List Char} (h : parametersOf (scan m cs).1 = []) :
    (scan m cs).1.flatMap Piece.masked = cs := by
  fun_induction scan m cs <;> simp_all [parametersOf, Piece.masked]

end Parameter

namespace Decimal

/-- A numeral without a sign: digits, perhaps with a point, and perhaps an exponent. -/
def isUnsigned (cs : List Char) : Bool :=
  let (fraction, rest) := splitPoint (cs.dropWhile Char.isDigit)
  !((cs.takeWhile Char.isDigit).isEmpty && fraction.isEmpty) && (readExponent? rest).isSome

theorem isSome_read? (cs : List Char) : (read? cs).isSome = isUnsigned (splitSign cs).2 := by
  rw [read?_eq]
  rcases splitSign cs with ⟨negative, ds⟩
  dsimp only [isUnsigned]
  generalize ((ds.takeWhile Char.isDigit).isEmpty &&
    (splitPoint (ds.dropWhile Char.isDigit)).1.isEmpty) = isEmpty
  cases isEmpty <;> simp

/-- A sign is taken off a numeral, and nothing else. -/
theorem splitSign_append (cs : List Char) :
    ∃ sign ∈ [[], ['+'], ['-']], cs = sign ++ (splitSign cs).2 := by
  unfold splitSign
  split
  · exact ⟨['-'], by simp, rfl⟩
  · exact ⟨['+'], by simp, rfl⟩
  · exact ⟨[], by simp, rfl⟩

end Decimal

namespace Sql

open Decimal

namespace Lexer

variable {d : Dialect}

/-! ## Numbers -/

theorem exponent_digits {e : Char} (he : e = 'e' ∨ e = 'E') {sign ds : List Char}
    (hsign : sign ∈ [[], ['+'], ['-']]) (hne : ds ≠ []) (hds : ds.all Char.isDigit) :
    exponent (e :: (sign ++ ds)) = e :: (sign ++ ds) := by
  have htake : ds.takeWhile Char.isDigit = ds :=
    List.takeWhile_eq_self_iff.2 (List.all_eq_true.1 hds)
  have hmark : (e == 'e' || e == 'E') = true := by simpa using he
  simp only [List.mem_cons, List.not_mem_nil, or_false] at hsign
  obtain rfl | rfl | rfl := hsign
  · cases ds with
    | nil => exact absurd rfl hne
    | cons c ds =>
      have hc : c ≠ '+' ∧ c ≠ '-' := by
        constructor <;> (rintro rfl; simp at hds)
      simp only [List.nil_append]
      unfold exponent
      simp only [hmark, if_true]
      split
      · rename_i heq
        exact absurd (List.cons.inj heq).1 hc.1
      · rename_i heq
        exact absurd (List.cons.inj heq).1 hc.2
      · simp [htake]
  · simp [exponent, hmark, htake, hne]
  · simp [exponent, hmark, htake, hne]

/-- The exponent of a numeral is read as a whole. -/
theorem exponent_of_readExponent? {cs : List Char} (h : (readExponent? cs).isSome) :
    exponent cs = cs := by
  cases cs with
  | nil => rfl
  | cons e rest =>
    obtain ⟨he, hds⟩ := digits_of_readExponent? h
    obtain ⟨sign, hsign, hrest⟩ := splitSign_append rest
    have hne : (splitSign rest).2 ≠ [] := by
      intro hnil
      simp [readExponent?_cons, hnil] at h
    rw [hrest]
    exact exponent_digits he hsign hne hds

/-- Behind its digits a numeral has nothing but an exponent. -/
theorem numberEnd_exponent {digits rest : List Char} (h : (readExponent? rest).isSome) :
    numberEnd d digits rest = (.number (String.ofList (digits ++ rest)) false, []) := by
  have hpower := exponent_of_readExponent? h
  unfold numberEnd
  simp only [hpower, List.drop_length, List.takeWhile_nil, ite_self, List.isEmpty_nil,
    Bool.not_true, Bool.false_eq_true, if_false]

theorem numberFraction_exponent {before cs : List Char}
    (hdigits : before ++ cs.takeWhile Char.isDigit ≠ ['.'])
    (h : (readExponent? (cs.dropWhile Char.isDigit)).isSome) :
    numberFraction d before cs = (.number (String.ofList (before ++ cs)) false, []) := by
  unfold numberFraction
  dsimp only
  rw [if_neg hdigits, numberEnd_exponent h, List.append_assoc, List.takeWhile_append_dropWhile]

/-- A numeral without a sign is one number, in every dialect. -/
theorem number_unsigned {cs : List Char} (h : isUnsigned cs) :
    number d cs = (.number (String.ofList cs) false, []) := by
  have hcs := List.takeWhile_append_dropWhile (p := Char.isDigit) (l := cs)
  have hwhole : ∀ c ∈ cs.takeWhile Char.isDigit, c.isDigit := fun c hc => List.mem_takeWhile_imp hc
  have hrest : ∀ c ∈ (cs.dropWhile Char.isDigit).head?, c.isDigit = false := by
    intro c hc
    have := List.head?_dropWhile_not Char.isDigit cs
    rw [Option.mem_def.1 hc] at this
    simpa using this
  rw [isUnsigned] at h
  rw [number_eq]
  generalize cs.takeWhile Char.isDigit = whole at *
  generalize cs.dropWhile Char.isDigit = rest at *
  by_cases hpoint : rest.head? = some '.'
  · obtain ⟨tail, rfl⟩ := List.head?_eq_some_iff.1 hpoint
    simp only [splitPoint, Bool.and_eq_true, Bool.not_eq_true'] at h
    obtain ⟨hne, hpower⟩ := h
    -- a point alone is no number, and the numeral has a digit on one side of it
    rw [if_neg (by simp), if_pos hpoint, List.drop_one, List.tail_cons,
      numberFraction_exponent ?_ hpower, List.append_assoc, List.singleton_append, hcs]
    intro heq
    have hlen := congrArg List.length heq
    simp only [List.length_append, List.length_cons, List.length_nil] at hlen
    have hnowhole : whole = [] := List.eq_nil_of_length_eq_zero (by omega)
    have hnofraction : tail.takeWhile Char.isDigit = [] :=
      List.eq_nil_of_length_eq_zero (by omega)
    rw [hnowhole, hnofraction] at hne
    cases hne
  · have hsplit : splitPoint rest = ([], rest) := by
      unfold splitPoint
      split
      · exact absurd rfl hpoint
      · rfl
    simp only [hsplit, List.isEmpty_nil, Bool.and_true, Bool.and_eq_true, Bool.not_eq_true'] at h
    obtain ⟨hne, hpower⟩ := h
    have hx : rest.head? ≠ some 'x' := by
      intro hhead
      obtain ⟨tail, rfl⟩ := List.head?_eq_some_iff.1 hhead
      simp [readExponent?_cons] at hpower
    have hstop : rest.takeWhile Char.isDigit = [] ∧ rest.dropWhile Char.isDigit = rest := by
      cases rest with
      | nil => exact ⟨rfl, rfl⟩
      | cons c rest => simp [hrest c rfl]
    rw [if_neg (fun hhex => hx hhex.2), if_neg hpoint, numberFraction_exponent, hcs]
    · rw [hstop.1, List.append_nil]
      rintro rfl
      have := hwhole '.' (by simp)
      revert this
      decide
    · rwa [hstop.2]

/-! ## One literal -/

/-- A digit or a point is no other character. -/
theorem numeral_ne {c x : Char} (hc : c.isDigit ∨ c = '.') (hx : x.isDigit = false ∧ x ≠ '.') :
    c ≠ x := by
  rintro rfl
  rcases hc with h | h
  · rw [hx.1] at h
    cases h
  · exact hx.2 h

theorem step?_numeral {c : Char} (hc : c.isDigit ∨ c = '.') (rest : List Char) :
    step? d (c :: rest) = token (number d (c :: rest)) := by
  have hne : ∀ x : Char, x.isDigit = false ∧ x ≠ '.' → c ≠ x := fun _ => numeral_ne hc
  have hblank : Text.isBlank c = false := by
    rcases hc with h | rfl
    · exact isBlank_of_isNamePart (by simp [Parameter.isNamePart, Char.isAlphanum, h])
    · decide
  have hquote : d.quotesWord c = false := by
    cases d <;> simp [Dialect.quotesWord, hne '"', hne '\x60', hne '[']
  rw [step?_unprefixed (prefixed?_none (by simp [hne]) rest), unprefixed?,
    if_neg (by simp [hquote]), if_neg (by simp [hne]), if_neg (by simp [hblank]),
    sign?_plain (by simp [hne]) (fun h => absurd h (hne '-' (by decide)))
      (fun h => absurd h (hne '/' (by decide))),
    if_pos (by simpa using hc)]

/-- Before a digit or a point a sign is a mark of its own. -/
theorem step?_sign (negative : Bool) {c : Char} (hc : c.isDigit ∨ c = '.') (rest : List Char) :
    step? d ((if negative then '-' else '+') :: c :: rest)
      = some (some (.mark (if negative then "-" else "+")), c :: rest) := by
  have hgreater : '>' ≠ c := (numeral_ne hc (by decide)).symm
  have hextends : d.extendsOperator c = false := by
    have hall : ∀ x ∈ "+-*/<>=~!@#%^&|\x60?".toList, x.isDigit = false ∧ x ≠ '.' := by
      simp [Char.isDigit]
    rw [Dialect.extendsOperator, Bool.and_eq_false_iff]
    refine .inr ?_
    rw [List.contains_eq_mem, decide_eq_false_iff_not]
    exact fun hmem => numeral_ne hc (hall c hmem) rfl
  have hfind : marks.find? (fun m => m.1.toList.isPrefixOf
      ((if negative then '-' else '+') :: c :: rest))
        = some (if negative then "-" else "+", negative) := by
    cases negative <;> simp [marks, List.isPrefixOf, hgreater]
  have hmark : mark? d ((if negative then '-' else '+') :: c :: rest)
      = some (.mark (if negative then "-" else "+"), c :: rest) := by
    have htake : (c :: rest).takeWhile d.extendsOperator = [] := by simp [hextends]
    rw [mark?, hfind]
    cases negative
    · rfl
    · show some (if ((c :: rest).takeWhile d.extendsOperator).isEmpty then _ else _) = _
      rw [htake]
      rfl
  have hdash : (c :: rest).head? ≠ some '-' := by
    simpa using numeral_ne hc (x := '-') (by decide)
  cases negative
  all_goals
    simp only [Bool.false_eq_true, if_false, if_true] at hmark ⊢
    rw [step?_unprefixed (prefixed?_none (by decide) _), unprefixed?,
      if_neg (by cases d <;> decide), if_neg (by decide), if_neg (by cases d <;> decide),
      sign?_plain (by decide) (fun _ => hdash) (by simp), if_neg (by decide),
      if_neg (by cases d <;> decide), if_neg (by decide), hmark]
    rfl

theorem isUnsigned_head {cs : List Char} (h : isUnsigned cs) :
    ∃ c rest, cs = c :: rest ∧ (c.isDigit ∨ c = '.') := by
  cases cs with
  | nil => cases h
  | cons c rest =>
    refine ⟨c, rest, rfl, ?_⟩
    by_contra hnot
    rw [not_or, Bool.not_eq_true] at hnot
    simp [isUnsigned, splitPoint, hnot] at h

theorem CutInto.unsigned {cs r : List Char} {ts : Option (List Token)} (hrest : CutInto d r ts)
    (hr : Stops r) (h : isUnsigned cs) :
    CutInto d (cs ++ r) (ts.map (.number (String.ofList cs) false :: ·)) := by
  obtain ⟨c, rest, rfl, hc⟩ := isUnsigned_head h
  have hstep := step?_numeral (d := d) hc (rest ++ r)
  rw [← List.cons_append, (number_stable (c :: rest)).2 r hr, number_unsigned h] at hstep
  refine hrest.step hstep ?_
  simp only [List.length_append, List.length_cons]
  omega

theorem CutInto.signed {cs r : List Char} {ts : Option (List Token)} (hrest : CutInto d r ts)
    (hr : Stops r) (negative : Bool) (h : isUnsigned cs) :
    CutInto d ((if negative then '-' else '+') :: (cs ++ r)) (ts.map
      ([.mark (if negative then "-" else "+"), .number (String.ofList cs) false] ++ ·)) := by
  have hnumber := hrest.unsigned hr h
  obtain ⟨c, rest, rfl, hc⟩ := isUnsigned_head h
  simpa [Option.map_map, Function.comp_def] using
    hnumber.step (step?_sign negative hc (rest ++ r)) (by simp)

/-- Behind a quote stands a text. -/
theorem step?_quote (cs : List Char) :
    step? d ('\'' :: cs) = textToken .plain (body? d '\'' d.hasBackslash cs) := by
  rw [step?_unprefixed (prefixed?_none (by decide) cs)]
  cases d <;> rfl

/-- A text that has been read to its end is read so before anything but another quote. -/
theorem body?_append {close : Char} {escapes : Bool} {cs out r : List Char}
    (h : body? d close escapes cs = some (out, [])) (hr : r.head? ≠ some close) :
    body? d close escapes (cs ++ r) = some (out, r) := by
  fun_induction body? d close escapes cs generalizing out with
  | case1 => cases h
  | case2 c hc c' rest' hc' ih =>
    obtain rfl : c = close := by simpa using hc
    obtain rfl : c' = c := by simpa using hc'
    obtain ⟨tail, htail, rfl⟩ := prepend_eq_some.1 h
    rw [List.cons_append, List.cons_append, body?_double, ih htail]
    rfl
  | case3 => cases h
  | case4 c hc =>
    obtain rfl : c = close := by simpa using hc
    cases h
    exact body?_close hr
  | case5 c hc hslash e rest' ih =>
    obtain ⟨rfl, rfl⟩ : c = '\\' ∧ escapes = true := by simpa using hslash
    have hne : close ≠ '\\' := by rintro rfl; simp at hc
    obtain ⟨⟨tail, _⟩, htail, heq⟩ := Option.map_eq_some_iff.1 h
    cases heq
    rw [List.cons_append, List.cons_append, body?_escape hne, ih htail]
    rfl
  | case6 => cases h
  | case7 c rest' hc hslash ih =>
    obtain ⟨tail, htail, rfl⟩ := prepend_eq_some.1 h
    rw [List.cons_append, body?_plain (by simpa using hc) (by simpa using hslash), ih htail]
    rfl

theorem CutInto.text {cs out r : List Char} {ts : Option (List Token)} (hrest : CutInto d r ts)
    (hr : Stops r) (h : body? d '\'' d.hasBackslash cs = some (out, [])) :
    CutInto d ('\'' :: (cs ++ r)) (ts.map (.text .plain (String.ofList out) :: ·)) := by
  have hne : r.head? ≠ some '\'' := fun hhead => by
    have := hr _ hhead
    cases this
  have hstep : step? d ('\'' :: (cs ++ r)) = some (some (.text .plain (String.ofList out)), r) := by
    rw [step?_quote, body?_append h hne]
    rfl
  refine hrest.step hstep ?_
  simp only [List.length_append, List.length_cons]
  omega

theorem cutInto_text {cs out : List Char} (h : body? d '\'' d.hasBackslash cs = some (out, [])) :
    CutInto d ('\'' :: cs) (some [.text .plain (String.ofList out)]) := by
  simpa using cutInto_nil.text stops_nil h

/-- A text that does not end is not cut. -/
theorem cutInto_unended {cs : List Char} (h : body? d '\'' d.hasBackslash cs = none) :
    CutInto d ('\'' :: cs) none := by
  have hstep : step? d ('\'' :: cs) = none := by
    rw [step?_quote, h]
    rfl
  intro n _
  cases n <;> simp [tokens?, hstep]

/-! ## The text in front of a literal -/

/-- A blank is read as nothing. -/
theorem CutInto.space {cs : List Char} {ts : Option (List Token)} (h : CutInto d cs ts) :
    CutInto d (' ' :: cs) ts := by
  have hstep : step? d (' ' :: cs) = some (none, cs) := by
    rw [step?_unprefixed (prefixed?_none (by decide) cs)]
    cases d <;> rfl
  simpa using h.step hstep (by simp)

theorem step?_select (r : List Char) : step? d ('S' :: 'E' :: 'L' :: 'E' :: 'C' :: 'T' :: ' ' :: r)
    = some (some (.bare "SELECT"), ' ' :: r) := by
  cases d <;> rfl

theorem step?_from (r : List Char) : step? d ('F' :: 'R' :: 'O' :: 'M' :: ' ' :: r)
    = some (some (.bare "FROM"), ' ' :: r) := by
  cases d <;> rfl

theorem step?_where (r : List Char) : step? d ('W' :: 'H' :: 'E' :: 'R' :: 'E' :: ' ' :: r)
    = some (some (.bare "WHERE"), ' ' :: r) := by
  cases d <;> rfl

theorem step?_comparison (c : Comparison) (r : List Char) :
    step? d (c.sql.toList ++ ' ' :: r) = some (some (.mark c.sql), ' ' :: r) := by
  cases c <;>
    simp only [Comparison.sql, Comparison.toFilterOperator, FilterOperator.sql,
      String.reduceToList, List.cons_append, List.nil_append] <;>
    cases d <;> rfl

/-- A bare word before a blank. -/
theorem CutInto.word {cs : List Char} {ts : Option (List Token)} {w : List Char} {s : String}
    (h : CutInto d cs ts) (hne : w ≠ [])
    (hw : ∀ r, step? d (w ++ ' ' :: r) = some (some (.bare s), ' ' :: r)) :
    CutInto d (w ++ ' ' :: cs) (ts.map (.bare s :: ·)) := by
  refine h.space.step (hw cs) ?_
  have := List.length_pos_iff.2 hne
  simp only [List.length_append, List.length_cons]
  omega

/-- The column before a blank. -/
theorem CutInto.column {cs : List Char} {ts : Option (List Token)} (h : CutInto d cs ts) :
    CutInto d ('t' :: '.' :: 'a' :: ' ' :: cs) (ts.map columnTokens) := by
  have hname : CutInto d ('a' :: ' ' :: cs) (ts.map (.bare "a" :: ·)) :=
    h.word (w := ['a']) (by simp) fun r => by cases d <;> rfl
  have hpoint : CutInto d ('.' :: 'a' :: ' ' :: cs) _ :=
    hname.step (t := some (.mark ".")) (by cases d <;> rfl) (by simp)
  have hcolumn : CutInto d ('t' :: '.' :: 'a' :: ' ' :: cs) _ :=
    hpoint.step (t := some (.bare "t")) (by cases d <;> rfl) (by simp)
  simpa [Option.map_map, Function.comp_def] using hcolumn

/-- The column and a comparison before a blank. -/
theorem CutInto.comparison {cs : List Char} {ts : Option (List Token)} (h : CutInto d cs ts)
    (c : Comparison) : CutInto d ('t' :: '.' :: 'a' :: ' ' :: (c.sql.toList ++ ' ' :: cs))
      (ts.map fun ts => columnTokens (.mark c.sql :: ts)) := by
  have hmark : CutInto d (c.sql.toList ++ ' ' :: cs) _ :=
    h.space.step (step?_comparison c cs)
      (by cases c <;> simp [Comparison.sql, Comparison.toFilterOperator, FilterOperator.sql])
  simpa [Option.map_map, Function.comp_def] using hmark.column

end Lexer

open Lexer

/-- The text in front of the literal. -/
def literalPrefix (c : Comparison) : String := "SELECT t.a FROM t WHERE t.a " ++ c.sql ++ " "

theorem toList_literalPrefix (c : Comparison) : (literalPrefix c).toList =
    ['S', 'E', 'L', 'E', 'C', 'T'] ++ ' ' :: 't' :: '.' :: 'a' :: ' ' :: (['F', 'R', 'O', 'M'] ++
      ' ' :: (['t'] ++ ' ' :: (['W', 'H', 'E', 'R', 'E'] ++ ' ' :: 't' :: '.' :: 'a' :: ' ' ::
        (c.sql.toList ++ [' '])))) := by
  cases c <;> decide +kernel

/-- The text in front of the literal is cut into the words of the select and the comparison. -/
theorem cutInto_literalPrefix {d : Dialect} (c : Comparison) {cs : List Char}
    {ts : Option (List Token)} (h : CutInto d cs ts) :
    CutInto d ((literalPrefix c).toList ++ cs)
      (ts.map fun ts => selectTokens (columnTokens (.mark c.sql :: ts))) := by
  have hwhere := (h.comparison c).word (w := ['W', 'H', 'E', 'R', 'E']) (by simp) step?_where
  have hsource := hwhere.word (w := ['t']) (s := "t") (by simp) fun r => by cases d <;> rfl
  have hfrom := hsource.word (w := ['F', 'R', 'O', 'M']) (by simp) step?_from
  have hselect := hfrom.column.word (w := ['S', 'E', 'L', 'E', 'C', 'T']) (by simp) step?_select
  simpa [toList_literalPrefix, Option.map_map, Function.comp_def] using hselect

/-- Text that opens nothing stays as it is when parameters are put between quotes. -/
theorem maskedChars_calm {u : List Char} (hu : u.all Parameter.opensNothing = true)
    (cs : List Char) : maskedChars (u ++ cs) = u ++ maskedChars cs := by
  rw [maskedChars, Parameter.scan_calm (List.all_eq_true.1 hu), List.flatMap_append]
  congr 1
  clear hu
  induction u with
  | nil => rfl
  | cons x u ih => rw [List.map_cons, List.flatMap_cons, ih]; rfl

/-- The parameters of the text are those of the literal. -/
theorem maskedChars_literalPrefix (c : Comparison) (cs : List Char) :
    maskedChars ((literalPrefix c).toList ++ cs) = (literalPrefix c).toList ++ maskedChars cs :=
  maskedChars_calm (by cases c <;> decide) cs

/-! ## The literal of a value -/

namespace Literal

/-- The literal of a number: its digits, behind its sign if it has one. -/
def ofNumber (v : String) : Literal :=
  match v.toList with
  | '-' :: digits => .number (some true) (String.ofList digits) false
  | '+' :: digits => .number (some false) (String.ofList digits) false
  | _ => .number none v false

/-- The literal that is written for a value. -/
def ofValue (v : String) : Literal :=
  if Parameter.isParameter v then .parameter v
  else if isNumber v then ofNumber v
  else .quoted v

theorem value_ofNumber (v : String) : (ofNumber v).value = v := by
  unfold ofNumber
  split
  · rename_i heq
    apply String.toList_injective
    simp [value, signText, heq]
  · rename_i heq
    apply String.toList_injective
    simp [value, signText, heq]
  · simp [value, signText]

theorem value_ofValue (v : String) : (ofValue v).value = v := by
  unfold ofValue
  split
  · rfl
  · split
    · exact value_ofNumber v
    · rfl

end Literal

/-- Nothing in the value gets another meaning when it is written and read in the dialect: the value
is written without quotes, or backslashes are nothing special in the dialect, or each of them stands
in front of a mark of patterns. -/
def KeepsValue (d : Dialect) (v : String) : Prop :=
  d.hasBackslash = true → Parameter.isParameter v = false → isNumber v = false →
    keepsBackslashes v.toList = true

theorem keepsBackslashes_of_not_mem {cs : List Char} (h : '\\' ∉ cs) :
    keepsBackslashes cs = true := by
  induction cs with
  | nil => rfl
  | cons c cs ih =>
    rw [List.mem_cons, not_or] at h
    unfold keepsBackslashes
    rw [if_neg (Ne.symm h.1)]
    exact ih h.2

/-- Where backslashes escape what follows them, a text without quotes inside is read up to its end
if it is read at all. -/
theorem body?_ends {d : Dialect} {cs out rest : List Char} (h : '\'' ∉ cs)
    (hread : body? d '\'' true (cs ++ ['\'']) = some (out, rest)) : rest = [] := by
  induction cs using keepsBackslashes.induct generalizing out with
  | case1 =>
    rw [List.nil_append, body?_close (by simp)] at hread
    cases hread
    rfl
  | case2 => simp [body?_escape, body?] at hread
  | case3 e cs ih =>
    rw [List.cons_append, List.cons_append, body?_escape (by decide)] at hread
    obtain ⟨⟨tail, _⟩, htail, heq⟩ := Option.map_eq_some_iff.1 hread
    cases heq
    exact ih (by simp_all) htail
  | case4 c cs hc ih =>
    have hquote : c ≠ '\'' := by rintro rfl; simp at h
    rw [List.cons_append, body?_plain hquote (fun hslash => absurd hslash hc)] at hread
    obtain ⟨tail, htail, -⟩ := prepend_eq_some.1 hread
    exact ih (by simp_all) htail

/-- A text without quotes and backslashes is read back between quotes. -/
theorem body?_plainText {d : Dialect} {cs : List Char} (h : ∀ c ∈ cs, c ≠ '\'' ∧ c ≠ '\\') :
    body? d '\'' d.hasBackslash (cs ++ ['\'']) = some (cs, []) := by
  have hdoubled : doubled '\'' cs = cs := doubled_eq_self fun hmem => (h _ hmem).1 rfl
  have hkeeps : keepsBackslashes cs = true :=
    keepsBackslashes_of_not_mem fun hmem => (h _ hmem).2 rfl
  have := (body?_quoted_iff d cs).2 fun _ => hkeeps
  rwa [hdoubled] at this

/-- There is nothing to mask in what is written for a value that is no parameter. -/
theorem maskedChars_formatValue {v : String} (h : Parameter.isParameter v = false) :
    maskedChars (formatValue v).toList = (formatValue v).toList :=
  Parameter.flatMap_masked (by rw [parametersOf_formatValue, h]; rfl)

variable {r : List Char} {ts : Option (List Token)}

/-- A parameter is masked, and cut into the text between the quotes. -/
theorem cutInto_parameter {d : Dialect} {v : String} (h : Parameter.isParameter v = true)
    (hr : Stops r) (hrest : CutInto d r ts) :
    CutInto d (maskedChars v.toList ++ r) (ts.map ((Literal.parameter v).tokens ++ ·)) := by
  obtain ⟨p, rest, hat, hwritten, hscan⟩ := scan_of_isParameter h
  have hmasked : maskedChars v.toList = '\'' :: (v.toList ++ ['\'']) := by
    rw [maskedChars, hscan, ← hwritten]
    simp [Parameter.Piece.masked]
  have hplain : ∀ c ∈ v.toList, c ≠ '\'' ∧ c ≠ '\\' := by
    intro c hc
    rw [← hwritten] at hc
    rcases Parameter.mem_written hat hc with rfl | rfl | hblank | hname
    · decide
    · decide
    · constructor <;> (rintro rfl; revert hblank; decide)
    · constructor <;> (rintro rfl; revert hname; decide)
  rw [hmasked]
  simpa [Literal.tokens] using hrest.text hr (body?_plainText hplain)

/-- A number is cut into its digits, behind its sign if it has one. -/
theorem cutInto_number {d : Dialect} {v : String} (h : isNumber v = true) (hr : Stops r)
    (hrest : CutInto d r ts) :
    CutInto d (v.toList ++ r) (ts.map ((Literal.ofNumber v).tokens ++ ·)) := by
  have hunsigned : isUnsigned (splitSign v.toList).2 := by
    rw [← isSome_read?]
    exact Option.isSome_of_isSome_bind h
  unfold Literal.ofNumber
  split
  · rename_i digits heq
    rw [heq] at hunsigned ⊢
    exact hrest.signed hr true hunsigned
  · rename_i digits heq
    rw [heq] at hunsigned ⊢
    exact hrest.signed hr false hunsigned
  · rename_i hminus hplus
    have hsign : splitSign v.toList = (false, v.toList) := by
      unfold splitSign
      split
      · exact absurd ‹_› (hminus _)
      · exact absurd ‹_› (hplus _)
      · rfl
    rw [hsign] at hunsigned
    simpa [Literal.tokens] using hrest.unsigned hr hunsigned

/-- What is written for a value is cut into its literal, unless the dialect gives the backslashes in
it a meaning. -/
theorem Lexer.CutInto.writtenValue {d : Dialect} {v : String} (hrest : CutInto d r ts)
    (hr : Stops r) (h : KeepsValue d v) :
    CutInto d (maskedChars (formatValue v).toList ++ r)
      (ts.map ((Literal.ofValue v).tokens ++ ·)) := by
  unfold Literal.ofValue
  cases hparameter : Parameter.isParameter v with
  | true =>
    rw [formatValue_of_bare (.inl hparameter), if_pos rfl]
    exact cutInto_parameter hparameter hr hrest
  | false =>
    rw [maskedChars_formatValue hparameter, if_neg Bool.false_ne_true]
    cases hnumber : isNumber v with
    | true =>
      rw [formatValue_of_bare (.inr hnumber), if_pos rfl]
      exact cutInto_number hnumber hr hrest
    | false =>
      rw [formatValue_of_quoted hparameter hnumber, toList_quoted, List.cons_append,
        if_neg Bool.false_ne_true]
      have hread := (body?_quoted_iff d v.toList).2 fun hd => h hd hparameter hnumber
      simpa [Literal.tokens] using hrest.text hr hread

/-- What is written for a value is cut so, too, if nothing follows. -/
theorem cutInto_formatValue {d : Dialect} {v : String} (h : KeepsValue d v) :
    CutInto d (maskedChars (formatValue v).toList) (some (Literal.ofValue v).tokens) := by
  simpa using cutInto_nil.writtenValue stops_nil h

/-- The text of the query is cut at the literal, and into the words before it. -/
theorem tokenize?_literalPrefix {d : Dialect} (c : Comparison) {w : String}
    {ts : Option (List Token)} (h : CutInto d (maskedChars w.toList) ts) :
    tokenize? d (Parameter.mask (literalPrefix c ++ w))
      = ts.map fun ts => selectTokens (columnTokens (.mark c.sql :: ts)) := by
  refine CutInto.tokenize? ?_
  rw [toList_mask, String.toList_append, maskedChars_literalPrefix]
  exact cutInto_literalPrefix c h

/-- Whatever is cut into a literal is parsed as the literal of the condition. -/
theorem parse_literal {d : Dialect} (c : Comparison) {w : String} {l : Literal}
    (h : CutInto d (maskedChars w.toList) (some l.tokens)) :
    Query.parse d (literalPrefix c ++ w) = .ok (oneConditionQuery (conditionExpr c l)) := by
  have hstatements : statements? d (Parameter.mask (literalPrefix c ++ w))
      = some [.query (oneConditionQuery (conditionExpr c l))] := by
    rw [statements?, tokenize?_literalPrefix c h]
    simp [maxDepth, statements_condition d 44 c l]
  rw [Query.parse, hstatements]

/-- What is not cut is not parsed. -/
theorem parse_uncut {d : Dialect} (c : Comparison) {w : String}
    (h : CutInto d (maskedChars w.toList) none) :
    Query.parse d (literalPrefix c ++ w) = .error .malformed := by
  rw [Query.parse, statements?, tokenize?_literalPrefix c h]
  rfl

end Sql

end QueryCanvas
