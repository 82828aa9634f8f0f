import Mathlib.Data.Bool.AllAny
import QueryCanvas.Canvas.Vocabulary
import QueryCanvas.Proofs.Sql.Masking
import QueryCanvas.Proofs.Sql.Quote
import QueryCanvas.Sql.Lexer

/-!
# Cutting off one token

What the lexer does at the beginning of a word, a number, a text in quotes or a mark, whatever
stands behind it.
-/

set_option autoImplicit false

namespace QueryCanvas.Sql.Lexer

variable {d : Dialect}

/-! ## Beginnings -/

theorem prefixed?_of_next {c : Char} {rest : List Char}
    (h : ∀ next ∈ rest.head?, next ∉ ['\'', '"', '&']) : prefixed? d (c :: rest) = none := by
  unfold prefixed?
  split <;> simp_all

/-- The characters that can stand before a quote as part of a text. -/
def isPrefix (c : Char) : Bool :=
  c ∈ ['n', 'N', 'e', 'E', 'x', 'X', 'b', 'B', 'r', 'R', 'u', 'U']

theorem prefixed?_of_first {c : Char} (h : isPrefix c = false) (rest : List Char) :
    prefixed? d (c :: rest) = none := by
  simp only [isPrefix, List.mem_cons, List.not_mem_nil, or_false, decide_eq_false_iff_not,
    not_or] at h
  unfold prefixed?
  split <;> simp_all

/-- A piece that is neither blank nor a quoted word begins with a word, a number or a mark. -/
theorem step?_begins {c : Char} {rest : List Char} (hfirst : prefixed? d (c :: rest) = none)
    (hquote : c ∉ ['"', '`', '[']) (hblank : Text.isBlank c = false) :
    step? d (c :: rest) = sign? d c rest := by
  simp only [List.mem_cons, List.not_mem_nil, or_false, not_or] at hquote
  have hword : d.quotesWord c = false := by
    cases d <;> simp [Dialect.quotesWord, hquote]
  simp [step?, hfirst, hword, hquote, hblank]

/-- The characters at which a token of its own kind or a comment begins. -/
def isSign (c : Char) : Bool := c ∈ ['-', '/', '\'', '?', '#', '@']

theorem sign?_quiet {c : Char} (h : isSign c = false) (rest : List Char) :
    sign? d c rest =
      if c.isDigit || c == '.' then token (number d (c :: rest))
      else if d.startsWord c && c ≠ '@' then token (word d [c] rest)
      else if c == '$' then dollar? rest
      else token ((mark? d (c :: rest)).getD (.unknown c, rest)) := by
  simp only [isSign, List.mem_cons, List.not_mem_nil, or_false, decide_eq_false_iff_not,
    not_or] at h
  unfold sign?
  split <;> simp_all

theorem sign?_dash {rest : List Char} (h : rest.head? ≠ some '-') :
    sign? d '-' rest = token ((mark? d ('-' :: rest)).getD (.unknown '-', rest)) := by
  have hstart : d.startsWord '-' = false := by cases d <;> decide
  unfold sign?
  split <;> simp_all

/-! ## Words -/

/-- The characters that can stand behind a word. -/
def wordEnds : List Char := [' ', '\n', ',', ')', '(', '.']

theorem startsWord_of_isNameStart {c : Char} (h : Parameter.isNameStart c) : d.startsWord c := by
  simp only [Parameter.isNameStart, Bool.or_eq_true, beq_iff_eq] at h
  rcases h with h | rfl
  · simp [Dialect.startsWord, Text.isLetter_of_isAlpha h]
  · simp [Dialect.startsWord]

theorem continuesWord_of_isNamePart {c : Char} (h : Parameter.isNamePart c) :
    d.continuesWord c := by
  simp only [Parameter.isNamePart, Char.isAlphanum, Bool.or_eq_true, beq_iff_eq] at h
  rcases h with (h | h) | rfl
  · simp [Dialect.continuesWord, Dialect.startsWord, Text.isLetter_of_isAlpha h]
  · simp [Dialect.continuesWord, h]
  · simp [Dialect.continuesWord, Dialect.startsWord]

theorem not_continuesWord {c : Char} (h : c ∈ wordEnds) : d.continuesWord c = false := by
  have hall : ∀ x ∈ wordEnds, d.continuesWord x = false := by
    cases d <;> exact List.all_iff_forall_prop.1 (by decide)
  exact hall c h

/-- Characters of one class and then one that is not of it. -/
theorem span_of_all {p : Char → Bool} {w cs : List Char} (hw : ∀ c ∈ w, p c)
    (hcs : ∀ c ∈ cs.head?, p c = false) :
    (w ++ cs).takeWhile p = w ∧ (w ++ cs).dropWhile p = cs := by
  have hrest : cs.takeWhile p = [] ∧ cs.dropWhile p = cs := by
    cases cs with
    | nil => exact ⟨rfl, rfl⟩
    | cons c cs =>
      have hc : ¬p c := by simp [hcs c rfl]
      exact ⟨List.takeWhile_cons_of_neg hc, List.dropWhile_cons_of_neg hc⟩
  rw [List.takeWhile_append_of_pos hw, List.dropWhile_append_of_pos hw, hrest.1, hrest.2]
  exact ⟨List.append_nil w, rfl⟩

theorem word_plain {c : Char} {w cs : List Char} (hc : (c.isDigit || c == '.') = false)
    (hw : ∀ x ∈ w, Parameter.isNamePart x) (hcs : ∀ x ∈ cs.head?, x ∈ wordEnds) :
    word d [c] (w ++ cs) = (wordToken (c :: w), cs) := by
  obtain ⟨htake, hdrop⟩ := span_of_all (p := d.continuesWord)
    (fun x hx => continuesWord_of_isNamePart (hw x hx)) (fun x hx => not_continuesWord (hcs x hx))
  have hmixed : ((c :: w).all fun x => x.isDigit || x == '.') = false := by
    rw [List.all_cons, hc, Bool.false_and]
  simp only [word, htake, hdrop, List.cons_append, List.nil_append, hmixed]
  rfl

/-- The code points of the characters at which a name can begin. -/
theorem code_of_isNameStart {c : Char} (h : Parameter.isNameStart c) :
    65 ≤ c.toNat ∧ c.toNat ≤ 90 ∨ 97 ≤ c.toNat ∧ c.toNat ≤ 122 ∨ c.toNat = 95 := by
  simp only [Parameter.isNameStart] at h
  delta Char.isAlpha Char.isUpper Char.isLower at h
  simp only [Bool.or_eq_true, Bool.and_eq_true, decide_eq_true_eq, beq_iff_eq, ge_iff_le,
    UInt32.le_iff_toNat_le] at h
  rcases h with (h | h) | rfl
  · exact .inl h
  · exact .inr (.inl h)
  · exact .inr (.inr rfl)

theorem ne_of_isNameStart {c x : Char} (h : Parameter.isNameStart c)
    (hx : Parameter.isNameStart x = false) : c ≠ x := by
  rintro rfl
  rw [hx] at h
  cases h

theorem step?_word {s : String} (hs : isPlainName s) {cs : List Char}
    (hcs : ∀ c ∈ cs.head?, c ∈ wordEnds) :
    step? d (s.toList ++ cs) = some (some (.word (.bare s)), cs) := by
  simp only [isPlainName, Bool.and_eq_true, List.all_eq_true] at hs
  cases hlist : s.toList with
  | nil => simp [hlist] at hs
  | cons c w =>
    rw [hlist] at hs
    have hstart : Parameter.isNameStart c := by simpa using hs.1
    have hparts : ∀ x ∈ w, Parameter.isNamePart x := fun x hx => hs.2 x (by simp [hx])
    have hne : ∀ {x : Char}, Parameter.isNameStart x = false → c ≠ x :=
      ne_of_isNameStart hstart
    have hnext : ∀ next ∈ (w ++ cs).head?, next ∉ ['\'', '"', '&'] := by
      intro next hnext hmem
      have hpart : ∀ x ∈ ['\'', '"', '&'], Parameter.isNamePart x = false ∧ x ∉ wordEnds :=
        List.all_iff_forall_prop.1 (by decide)
      cases w with
      | nil => exact (hpart next hmem).2 (hcs next hnext)
      | cons x w =>
        obtain rfl : x = next := by simpa using hnext
        have hx := hparts x (by simp)
        rw [(hpart x hmem).1] at hx
        cases hx
    have hcode := code_of_isNameStart hstart
    have hblank : Text.isBlank c = false := by
      simp only [Text.isBlank]
      simp
      omega
    have hdigit : (c.isDigit || c == '.') = false := by
      simp only [Char.isDigit, Bool.or_eq_false_iff, Bool.and_eq_false_iff, decide_eq_false_iff_not,
        ge_iff_le, UInt32.le_iff_toNat_le, beq_eq_false_iff_ne]
      refine ⟨.inr ?_, hne (by decide)⟩
      show ¬c.toNat ≤ 57
      omega
    rw [List.cons_append, step?_begins (prefixed?_of_next hnext) (by
        simp [hne (x := '"') (by decide), hne (x := '`') (by decide), hne (x := '[') (by decide)])
      hblank, sign?_quiet (by
        simp [isSign, hne (x := '-') (by decide), hne (x := '/') (by decide),
          hne (x := '\'') (by decide), hne (x := '?') (by decide), hne (x := '#') (by decide),
          hne (x := '@') (by decide)]), hdigit, word_plain hdigit hparts hcs]
    simp [startsWord_of_isNameStart hstart, hne (x := '@') (by decide), token, wordToken, ← hlist]

/-! ## Numbers -/

/-- The exponent of a numeral, or nothing. -/
inductive Power : List Char → Prop
  | none : Power []
  | signed (e : Char) (sign digits : List Char) (he : e = 'e' ∨ e = 'E')
      (hsign : sign ∈ [[], ['+'], ['-']]) (hne : digits ≠ []) (hdigits : ∀ c ∈ digits, c.isDigit) :
      Power (e :: sign ++ digits)

/-- A numeral without a sign: digits with at most one point among or around them, and perhaps an
exponent. -/
inductive Numeral : List Char → Prop
  | whole (digits power : List Char) (hne : digits ≠ []) (hdigits : ∀ c ∈ digits, c.isDigit)
      (hpower : Power power) : Numeral (digits ++ power)
  | broken (digits fraction power : List Char) (hne : digits ++ fraction ≠ [])
      (hdigits : ∀ c ∈ digits, c.isDigit) (hfraction : ∀ c ∈ fraction, c.isDigit)
      (hpower : Power power) : Numeral (digits ++ '.' :: fraction ++ power)

/-- The characters that can stand behind any piece of a text. -/
def pieceEnds : List Char := [' ', '\n', ',', ')']

theorem not_isDigit_of_ends {c : Char} (h : c ∈ pieceEnds) : c.isDigit = false := by
  have hall : ∀ x ∈ pieceEnds, x.isDigit = false := List.all_iff_forall_prop.1 (by decide)
  exact hall c h

theorem exponent_power {power cs : List Char} (hpower : Power power)
    (hcs : ∀ c ∈ cs.head?, c ∈ pieceEnds) : exponent (power ++ cs) = power := by
  cases hpower with
  | none =>
    cases cs with
    | nil => rfl
    | cons c cs =>
      have hends : ∀ x ∈ pieceEnds, x ≠ 'e' ∧ x ≠ 'E' := List.all_iff_forall_prop.1 (by decide)
      have hc := hends c (hcs c rfl)
      simp [exponent, hc]
  | signed e sign digits he hsign hne hdigits =>
    have hspan := span_of_all (p := Char.isDigit) hdigits
      (fun c hc => not_isDigit_of_ends (hcs c hc))
    have hletter : (e == 'e' || e == 'E') = true := by simpa using he
    have hfirst : ∀ c rest, digits ++ cs = c :: rest → c ≠ '+' ∧ c ≠ '-' := by
      intro c rest heq
      cases digits with
      | nil => exact (hne rfl).elim
      | cons x digits =>
        obtain rfl : x = c := (List.cons.inj heq).1
        have hx := hdigits x (by simp)
        constructor <;> rintro rfl <;> exact absurd hx (by decide)
    simp only [List.mem_cons, List.not_mem_nil, or_false] at hsign
    rcases hsign with rfl | rfl | rfl
    · simp only [exponent, List.cons_append, List.nil_append, hletter, ↓reduceIte]
      split
      · rename_i rest heq
        exact ((hfirst _ _ heq).1 rfl).elim
      · rename_i rest heq
        exact ((hfirst _ _ heq).2 rfl).elim
      · simp [hspan.1, hne]
    · simp [exponent, hletter, hspan.1, hne]
    · simp [exponent, hletter, hspan.1, hne]

theorem head_power {power cs : List Char} (hpower : Power power)
    (hcs : ∀ c ∈ cs.head?, c ∈ pieceEnds) :
    ∀ c ∈ (power ++ cs).head?, c.isDigit = false ∧ c ≠ '.' ∧ c ≠ 'x' ∧ c ≠ 'L' := by
  intro c hc
  cases hpower with
  | none =>
    have hends : ∀ x ∈ pieceEnds, x.isDigit = false ∧ x ≠ '.' ∧ x ≠ 'x' ∧ x ≠ 'L' :=
      List.all_iff_forall_prop.1 (by decide)
    exact hends c (hcs c hc)
  | signed e sign digits he =>
    obtain rfl : e = c := by simpa using hc
    rcases he with rfl | rfl <;> decide

/-- What `number` reads behind the digits before the point. -/
theorem number_tail (digits : List Char) {power cs : List Char} (hpower : Power power)
    (hcs : ∀ c ∈ cs.head?, c ∈ pieceEnds) :
    (let rest := (power ++ cs).drop (exponent (power ++ cs)).length
     let tail := if d = .mysql && (exponent (power ++ cs)).isEmpty then
        rest.takeWhile d.continuesWord else []
     if !tail.isEmpty then (wordToken (digits ++ tail), rest.drop tail.length)
     else
       let written := String.ofList (digits ++ exponent (power ++ cs))
       match rest with
       | 'L' :: rest => (Token.number written true, rest)
       | rest => (Token.number written false, rest)) =
      (.number (String.ofList (digits ++ power)) false, cs) := by
  have hstop : cs.takeWhile d.continuesWord = [] := by
    have hends : ∀ c ∈ pieceEnds, c ∈ wordEnds := List.all_iff_forall_prop.1 (by decide)
    have hspan := (span_of_all (p := d.continuesWord) (w := []) (by simp)
      fun c hc => not_continuesWord (hends c (hcs c hc))).1
    exact hspan
  have hlong : ∀ rest, cs ≠ 'L' :: rest := by
    rintro rest rfl
    exact absurd (hcs 'L' rfl) (by decide)
  simp only [exponent_power hpower hcs, List.drop_left, hstop, ite_self, List.isEmpty_nil,
    Bool.not_true, Bool.false_eq_true, ↓reduceIte]

theorem number_numeral {w cs : List Char} (hw : Numeral w) (hcs : ∀ c ∈ cs.head?, c ∈ pieceEnds) :
    number d (w ++ cs) = (.number (String.ofList w) false, cs) := by
  cases hw with
  | whole digits power hne hdigits hpower =>
    have hhead := head_power hpower hcs
    obtain ⟨htake, hdrop⟩ := span_of_all (p := Char.isDigit) hdigits fun c hc => (hhead c hc).1
    have hnone : (power ++ cs).takeWhile Char.isDigit = [] ∧
        (power ++ cs).dropWhile Char.isDigit = power ++ cs := by
      simpa using span_of_all (p := Char.isDigit) (w := []) (by simp)
        fun c hc => (hhead c hc).1
    have hpoint : digits ≠ ['.'] := by
      rintro rfl
      exact absurd (hdigits '.' (by simp)) (by decide)
    have htail := number_tail (d := d) digits hpower hcs
    rw [List.append_assoc, number, htake, hdrop]
    split
    · rename_i rest heq
      exact ((hhead 'x' (by simp [heq])).2.2.1 rfl).elim
    · split
      rename_i point rest hmatch
      split at hmatch
      · rename_i heq
        exact ((hhead '.' (by simp [heq])).2.1 rfl).elim
      · cases hmatch
        simp only [hnone, List.append_nil, hpoint, ↓reduceIte]
        exact htail
  | broken digits fraction power hne hdigits hfraction hpower =>
    have hhead := head_power hpower hcs
    have hbehind : ∀ c ∈ ('.' :: (fraction ++ (power ++ cs))).head?, c.isDigit = false := by simp
    obtain ⟨htake, hdrop⟩ := span_of_all (p := Char.isDigit) hdigits hbehind
    obtain ⟨htake', hdrop'⟩ := span_of_all (p := Char.isDigit) hfraction fun c hc => (hhead c hc).1
    have hpoint : digits ++ ['.'] ++ fraction ≠ ['.'] := by
      intro heq
      have hlength := congrArg List.length heq
      simp only [List.length_append, List.length_cons, List.length_nil] at hlength
      exact hne (List.append_eq_nil_iff.2
        ⟨List.length_eq_zero_iff.1 (by omega), List.length_eq_zero_iff.1 (by omega)⟩)
    have htail := number_tail (d := d) (digits ++ ['.'] ++ fraction) hpower hcs
    have hshape : digits ++ '.' :: fraction ++ power ++ cs =
        digits ++ '.' :: (fraction ++ (power ++ cs)) := by simp
    rw [hshape, number, htake, hdrop]
    split
    · rename_i rest heq
      cases heq
    · simp only [htake', hdrop', hpoint, ↓reduceIte]
      refine htail.trans ?_
      simp

theorem head_numeral {w : List Char} (hw : Numeral w) :
    ∃ c rest, w = c :: rest ∧ (c.isDigit ∨ c = '.') := by
  cases hw with
  | whole digits power hne hdigits =>
    cases digits with
    | nil => exact (hne rfl).elim
    | cons c digits => exact ⟨c, _, rfl, .inl (hdigits c (by simp))⟩
  | broken digits fraction power hne hdigits =>
    cases digits with
    | nil => exact ⟨'.', _, rfl, .inr rfl⟩
    | cons c digits => exact ⟨c, _, rfl, .inl (hdigits c (by simp))⟩

/-- The code points of the characters at which a numeral can begin. -/
theorem code_of_digit {c : Char} (h : c.isDigit ∨ c = '.') : 46 ≤ c.toNat ∧ c.toNat ≤ 57 ∧
    c.toNat ≠ 47 := by
  simp only [Char.isDigit, Bool.and_eq_true, decide_eq_true_eq, ge_iff_le,
    UInt32.le_iff_toNat_le] at h
  rcases h with h | rfl
  · have h48 : 48 ≤ c.toNat := h.1
    have h57 : c.toNat ≤ 57 := h.2
    omega
  · decide

theorem ne_of_code {c x : Char} (h : c.toNat ≠ x.toNat) : c ≠ x := by
  rintro rfl
  exact h rfl

theorem step?_number {w cs : List Char} (hw : Numeral w) (hcs : ∀ c ∈ cs.head?, c ∈ pieceEnds) :
    step? d (w ++ cs) = some (some (.number (String.ofList w) false), cs) := by
  obtain ⟨c, rest, rfl, hc⟩ := head_numeral hw
  have hcode := code_of_digit hc
  have hne : ∀ {x : Char}, (x.toNat < 46 ∨ 57 < x.toNat ∨ x.toNat = 47) → c ≠ x :=
    fun hx => ne_of_code (by omega)
  have hblank : Text.isBlank c = false := by
    simp only [Text.isBlank]
    simp
    omega
  have hnumber : (c.isDigit || c == '.') = true := by simpa using hc
  have hfirst : isPrefix c = false := by
    simp [isPrefix, hne (x := 'n') (by decide), hne (x := 'N') (by decide),
      hne (x := 'e') (by decide), hne (x := 'E') (by decide), hne (x := 'x') (by decide),
      hne (x := 'X') (by decide), hne (x := 'b') (by decide), hne (x := 'B') (by decide),
      hne (x := 'r') (by decide), hne (x := 'R') (by decide), hne (x := 'u') (by decide),
      hne (x := 'U') (by decide)]
  have hread := number_numeral (d := d) hw hcs
  rw [List.cons_append] at hread ⊢
  rw [step?_begins (prefixed?_of_first hfirst _) (by
      simp [hne (x := '"') (by decide), hne (x := '`') (by decide), hne (x := '[') (by decide)])
    hblank, sign?_quiet (by
      simp [isSign, hne (x := '-') (by decide), hne (x := '/') (by decide),
        hne (x := '\'') (by decide), hne (x := '?') (by decide), hne (x := '#') (by decide),
        hne (x := '@') (by decide)]), hnumber, hread]
  rfl

theorem power_of_readExponent {cs : List Char} (h : (Decimal.readExponent? cs).isSome) :
    Power cs := by
  unfold Decimal.readExponent? at h
  split at h
  · exact .none
  · rename_i e rest
    split at h
    · rename_i he
      have he : e = 'e' ∨ e = 'E' := by simpa using he
      have hdigits : ∀ ds : List Char, (ds.isEmpty || !ds.all Char.isDigit) ≠ true →
          ds ≠ [] ∧ ∀ c ∈ ds, c.isDigit := by
        intro ds hds
        simpa using hds
      simp only at h
      split at h <;> split at h
      · cases h
      · obtain ⟨hne, hall⟩ := hdigits _ ‹_›
        exact .signed e ['-'] _ he (by simp) hne hall
      · cases h
      · obtain ⟨hne, hall⟩ := hdigits _ ‹_›
        exact .signed e ['+'] _ he (by simp) hne hall
      · cases h
      · obtain ⟨hne, hall⟩ := hdigits _ ‹_›
        exact .signed e [] _ he (by simp) hne hall
    · cases h

/-- A text that is the numeral of a double is a numeral, perhaps with a sign. -/
theorem numeral_of_isNumber {s : String} (h : isNumber s) :
    ∃ sign w, s.toList = sign ++ w ∧ sign ∈ [[], ['-'], ['+']] ∧ Numeral w := by
  have hread : (Decimal.read? s.toList).isSome := by
    cases hd : Decimal.read? s.toList with
    | none => simp [isNumber, hd] at h
    | some d => rfl
  unfold Decimal.read? at hread
  split at hread
  rename_i negative cs hsign
  suffices hw : Numeral cs by
    split at hsign <;> cases hsign
    · rename_i heq
      exact ⟨['-'], _, heq, by simp, hw⟩
    · rename_i heq
      exact ⟨['+'], _, heq, by simp, hw⟩
    · exact ⟨[], _, rfl, by simp, hw⟩
  have hwhole := List.takeWhile_append_dropWhile (p := Char.isDigit) (l := cs)
  have hdigits : ∀ c ∈ cs.takeWhile Char.isDigit, c.isDigit :=
    fun c hc => List.mem_takeWhile_imp hc
  simp only at hread
  split at hread
  · rename_i tail hpoint
    split at hread
    · cases hread
    · rename_i hne
      rw [Option.isSome_map] at hread
      rw [hpoint, ← List.takeWhile_append_dropWhile (p := Char.isDigit) (l := tail)] at hwhole
      rw [← hwhole]
      have hbroken := Numeral.broken _ _ _ (by simpa using hne) hdigits
        (fun c hc => List.mem_takeWhile_imp hc) (power_of_readExponent hread)
      simpa using hbroken
  · split at hread
    · cases hread
    · rename_i hne
      rw [Option.isSome_map] at hread
      rw [← hwhole]
      exact .whole _ _ (by simpa using hne) hdigits (power_of_readExponent hread)

/-! ## Marks -/

/-- A mark that is found ends where no operator goes on. -/
theorem mark?_of_find {s : String} {e : Bool} {cs : List Char}
    (h : marks.find? (fun m => m.1.toList.isPrefixOf (s.toList ++ cs)) = some (s, e))
    (hcs : e → ∀ c ∈ cs.head?, d.extendsOperator c = false) :
    mark? d (s.toList ++ cs) = some (.mark (markName s), cs) := by
  have hdrop : (s.toList ++ cs).drop s.length = cs := by
    rw [← String.length_toList, List.drop_left]
  have hnone : (if e then cs.takeWhile d.extendsOperator else []) = [] := by
    split
    · rename_i hext
      simpa using (span_of_all (p := d.extendsOperator) (w := []) (by simp) (hcs hext)).1
    · rfl
  simp only [mark?, h, Option.map_some, hdrop, hnone, List.isEmpty_nil, ↓reduceIte]

theorem not_extendsOperator {c : Char} (h : c = ' ' ∨ c.isDigit ∨ c = '.') :
    d.extendsOperator c = false := by
  have hne : c ∉ "+-*/<>=~!@#%^&|`?".toList := by
    rcases h with rfl | h
    · decide
    · have hcode := code_of_digit h
      have hlist : ∀ x ∈ "+-*/<>=~!@#%^&|`?".toList,
          x.toNat < 46 ∨ 57 < x.toNat ∨ x.toNat = 47 := List.all_iff_forall_prop.1 (by decide)
      intro hmem
      have hx := hlist c hmem
      omega
  simp only [Dialect.extendsOperator, List.contains_eq_mem, hne, decide_false, Bool.and_false]

/-- The characters of marks that begin nothing else. -/
def markStarts : List Char := ['(', ')', ',', '*', '=', '!', '<', '>', '+']

theorem markStarts_plain {c : Char} (h : c ∈ markStarts) :
    isPrefix c = false ∧ c ∉ ['"', '`', '['] ∧ Text.isBlank c = false ∧ isSign c = false ∧
      (c.isDigit || c == '.') = false ∧ (c == '$') = false ∧ d.startsWord c = false := by
  have hall : ∀ x ∈ markStarts, isPrefix x = false ∧ x ∉ ['"', '`', '['] ∧
      Text.isBlank x = false ∧ isSign x = false ∧ (x.isDigit || x == '.') = false ∧
      (x == '$') = false ∧ d.startsWord x = false := by
    cases d <;> exact List.all_iff_forall_prop.1 (by decide)
  exact hall c h

theorem step?_of_mark {c : Char} {cs rest : List Char} {t : Token} (hc : c ∈ markStarts)
    (h : mark? d (c :: cs) = some (t, rest)) : step? d (c :: cs) = some (some t, rest) := by
  obtain ⟨hfirst, hquote, hblank, hsign, hdigit, hdollar, hstart⟩ := markStarts_plain (d := d) hc
  rw [step?_begins (prefixed?_of_first hfirst cs) hquote hblank, sign?_quiet hsign, hdigit, h,
    hstart, hdollar]
  rfl

/-- The marks that consist of one character and begin no longer mark. -/
theorem step?_mark {c : Char} (h : c ∈ ['(', ')', ',', '*']) (cs : List Char) :
    step? d (c :: cs) = some (some (.mark (String.singleton c)), cs) := by
  refine step?_of_mark (List.mem_append_left ['=', '!', '<', '>', '+'] h) ?_
  simp only [List.mem_cons, List.not_mem_nil, or_false] at h
  rcases h with rfl | rfl | rfl | rfl
  · exact mark?_of_find (s := "(") (e := false) (by simp [marks, List.find?, List.isPrefixOf])
      (by simp)
  · exact mark?_of_find (s := ")") (e := false) (by simp [marks, List.find?, List.isPrefixOf])
      (by simp)
  · exact mark?_of_find (s := ",") (e := false) (by simp [marks, List.find?, List.isPrefixOf])
      (by simp)
  · exact mark?_of_find (s := "*") (e := false) (by simp [marks, List.find?, List.isPrefixOf])
      (by simp)

/-- A comparison with a blank behind it. -/
theorem step?_compare (c : Comparison) (cs : List Char) :
    step? d (c.sql.toList ++ ' ' :: cs) = some (some (.mark c.sql), ' ' :: cs) := by
  have hspace : ∀ x ∈ (' ' :: cs).head?, d.extendsOperator x = false := by
    rintro x ⟨⟩
    exact not_extendsOperator (.inl rfl)
  cases c
  · exact step?_of_mark (by decide) (mark?_of_find (s := "=") (e := false)
      (by simp [marks, List.find?, List.isPrefixOf]) (by simp))
  · exact step?_of_mark (by decide) (mark?_of_find (s := "!=") (e := false)
      (by simp [marks, List.find?, List.isPrefixOf]) (by simp))
  · exact step?_of_mark (by decide) (mark?_of_find (s := "<") (e := true)
      (by simp [marks, List.find?, List.isPrefixOf]) fun _ => hspace)
  · exact step?_of_mark (by decide) (mark?_of_find (s := "<=") (e := true)
      (by simp [marks, List.find?, List.isPrefixOf]) fun _ => hspace)
  · exact step?_of_mark (by decide) (mark?_of_find (s := ">") (e := true)
      (by simp [marks, List.find?, List.isPrefixOf]) fun _ => hspace)
  · exact step?_of_mark (by decide) (mark?_of_find (s := ">=") (e := true)
      (by simp [marks, List.find?, List.isPrefixOf]) fun _ => hspace)

/-- A point between two names. -/
theorem step?_point {cs : List Char} (hcs : ∀ c ∈ cs.head?, c.isDigit = false) :
    step? d ('.' :: cs) = some (some (.mark "."), cs) := by
  obtain ⟨htake, hdrop⟩ := span_of_all (p := Char.isDigit) (w := []) (by simp) hcs
  rw [List.nil_append] at htake hdrop
  have hnumber : number d ('.' :: cs) = (.mark ".", cs) := by
    simp [number, htake, hdrop]
  rw [step?_begins (prefixed?_of_first (by decide) cs) (by decide) (by decide),
    sign?_quiet (by decide), hnumber]
  rfl

/-- The sign of a number. -/
theorem step?_signed {c x : Char} (hc : c = '-' ∨ c = '+') (hx : x.isDigit ∨ x = '.')
    (cs : List Char) :
    step? d (c :: x :: cs) = some (some (.mark (String.singleton c)), x :: cs) := by
  have hext : ∀ y ∈ (x :: cs).head?, d.extendsOperator y = false := by
    rintro y ⟨⟩
    exact not_extendsOperator (.inr hx)
  have hcode := code_of_digit hx
  rcases hc with rfl | rfl
  · have hdash : x ≠ '-' := ne_of_code (by simp; omega)
    have harrow : ('>' == x) = false := by
      simpa using (ne_of_code (c := x) (x := '>') (by simp; omega)).symm
    have hmark : mark? d ('-' :: x :: cs) = some (.mark "-", x :: cs) :=
      mark?_of_find (s := "-") (e := true)
        (by simp [marks, List.find?, List.isPrefixOf, harrow]) fun _ => hext
    rw [step?_begins (prefixed?_of_first (by decide) _) (by decide) (by decide),
      sign?_dash (by simpa using hdash), hmark]
    rfl
  · exact step?_of_mark (by decide) (mark?_of_find (s := "+") (e := false)
      (by simp [marks, List.find?, List.isPrefixOf]) (by simp))

/-! ## Blanks, comments and texts -/

theorem step?_gap {c : Char} (hc : c = ' ' ∨ c = '\n') (cs : List Char) :
    step? d (c :: cs) = some (none, cs) := by
  have hclass : isPrefix c = false ∧ d.quotesWord c = false ∧ c ≠ '"' ∧ Text.isBlank c ∧
      d.startsWord c = false := by
    rcases hc with rfl | rfl <;> cases d <;> decide
  obtain ⟨hfirst, hword, hquote, hblank, hstart⟩ := hclass
  simp [step?, prefixed?_of_first hfirst, hword, hquote, hblank, hstart]

/-- A comment without the characters of its marks in it. -/
theorem skipComment?_plain {last : Char} {w : List Char} (hw : ∀ c ∈ w, c ≠ '/' ∧ c ≠ '*')
    (hlast : last ≠ '/' ∧ last ≠ '*') (cs : List Char) :
    skipComment? 0 last (w ++ '*' :: '/' :: cs) = some cs := by
  induction w generalizing last with
  | nil => simp [skipComment?, hlast]
  | cons c w ih =>
    have hc := hw c (by simp)
    rw [List.cons_append, skipComment?, ih (fun x hx => hw x (by simp [hx])) hc]
    simp [hc, hlast]

theorem step?_comment {w : List Char} (hw : ∀ c ∈ w, c ≠ '/' ∧ c ≠ '*') (cs : List Char) :
    step? d ('/' :: '*' :: (w ++ '*' :: '/' :: cs)) = some (none, cs) := by
  rw [step?_begins (prefixed?_of_first (by decide) _) (by decide) (by decide), sign?,
    skipComment?_plain hw (by decide)]
  rfl

/-- A text between quotes is read up to the quote that is not doubled. -/
theorem body?_unescaped {e : Bool} {v cs : List Char} (hv : e → '\\' ∉ v)
    (hcs : cs.head? ≠ some '\'') :
    body? d '\'' e (doubled '\'' v ++ '\'' :: cs) = some (v, cs) := by
  induction v with
  | nil =>
    cases cs with
    | nil => simp [doubled, body?]
    | cons c cs =>
      have hc : (c == '\'') = false := by simpa using hcs
      simp [doubled, body?, hc]
  | cons c v ih =>
    have hrest := ih fun he hmem => hv he (by simp [hmem])
    rw [doubled, List.flatMap_cons, ← doubled]
    by_cases hc : c = '\''
    · rw [if_pos hc, hc]
      simp [body?, hrest, prepend]
    · have hback : (c == '\\' && e) = false := by
        cases e with
        | false => simp
        | true =>
          have hne : c ≠ '\\' := by
            rintro rfl
            exact hv rfl (by simp)
          simp [hne]
      rw [if_neg hc, List.cons_append, List.nil_append, List.cons_append, body?.eq_def]
      simp [hc, hback, hrest, prepend]

theorem step?_text {s : String} {cs : List Char} (hs : d.hasBackslash → '\\' ∉ s.toList)
    (hcs : cs.head? ≠ some '\'') :
    step? d ((quoted '\'' s).toList ++ cs) = some (some (.text .plain s), cs) := by
  rw [toList_quoted]
  simp only [List.cons_append, List.append_assoc, List.nil_append]
  rw [step?_begins (prefixed?_of_first (by decide) _) (by decide) (by decide), sign?,
    body?_unescaped hs hcs]
  simp [textToken]

end QueryCanvas.Sql.Lexer
