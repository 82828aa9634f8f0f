import Mathlib.Data.List.TakeWhile
import QueryCanvas.Data.JsonText

/-!
# Numerals in documents

A number is read from a JSON text part by part, and in the same way whatever follows it, as long as
that does not go on with a number.  What is written for a whole number or a double holds nothing but
the characters of a number, and a whole number that fits in 64 bits is read back from its digits.
-/

set_option autoImplicit false

namespace QueryCanvas

namespace Json

/-! ## What may follow a value -/

/-- The characters of a number. -/
def isNumeral (c : Char) : Bool :=
  c.isDigit || c == '-' || c == '+' || c == '.' || c == 'e' || c == 'E'

/-- What follows does not go on with a number. -/
def Ends (rest : List Char) : Prop := ∀ c ∈ rest.head?, isNumeral c = false

theorem ends_nil : Ends [] := by simp [Ends]

theorem ends_cons {c : Char} {rest : List Char} (h : isNumeral c = false) : Ends (c :: rest) := by
  simpa [Ends] using h

theorem Ends.head {c : Char} {rest : List Char} (h : Ends (c :: rest)) : isNumeral c = false :=
  h c rfl

theorem isNumeral_of_isSpace {c : Char} (h : isSpace c = true) : isNumeral c = false := by
  simp only [isSpace, Bool.or_eq_true, beq_iff_eq] at h
  rcases h with ((rfl | rfl) | rfl) | rfl <;> decide

theorem not_isSpace_of_isNumeral {c : Char} (h : isNumeral c = true) : isSpace c = false := by
  cases hs : isSpace c with
  | false => rfl
  | true => rw [isNumeral_of_isSpace hs] at h; cases h

/-- Digits are taken up to where a number ends. -/
theorem takeWhile_isDigit_append (cs : List Char) {rest : List Char} (h : Ends rest) :
    (cs ++ rest).takeWhile Char.isDigit = cs.takeWhile Char.isDigit
      ∧ (cs ++ rest).dropWhile Char.isDigit = cs.dropWhile Char.isDigit ++ rest := by
  induction cs with
  | nil =>
    cases rest with
    | nil => simp
    | cons c rest =>
      have hc : c.isDigit = false := by
        have := h.head
        simp only [isNumeral, Bool.or_eq_false_iff] at this
        exact this.1.1.1.1.1
      simp [hc]
  | cons c cs ih =>
    cases hc : c.isDigit with
    | true => simpa [hc] using ih
    | false => simp [hc]

/-! ## Numbers -/

/-- Takes a minus off a numeral. -/
def splitMinus : List Char → Bool × List Char
  | '-' :: rest => (true, rest)
  | rest => (false, rest)

/-- Takes a point and the digits behind it off a numeral. -/
def splitFraction : List Char → Bool × List Char × List Char
  | '.' :: rest => (true, rest.takeWhile Char.isDigit, rest.dropWhile Char.isDigit)
  | rest => (false, [], rest)

/-- Takes the mark and the sign of an exponent off a numeral. -/
def splitMark : List Char → Bool × Int × List Char
  | 'e' :: '-' :: rest | 'E' :: '-' :: rest => (true, (-1 : Int), rest)
  | 'e' :: '+' :: rest | 'E' :: '+' :: rest => (true, 1, rest)
  | 'e' :: rest | 'E' :: rest => (true, 1, rest)
  | rest => (false, 1, rest)

/-- A number is read part by part: minus, digits, fraction, mark, digits of the exponent. -/
theorem number?_eq (cs : List Char) :
    number? cs =
      (let (negative, cs) := splitMinus cs
      let whole := cs.takeWhile Char.isDigit
      let cs := cs.dropWhile Char.isDigit
      let (point, fraction, cs) := splitFraction cs
      let (mark, sign, cs) := splitMark cs
      let power := if mark then cs.takeWhile Char.isDigit else []
      let cs := if mark then cs.dropWhile Char.isDigit else cs
      if whole.isEmpty || (whole.head? = some '0' && whole.length ≠ 1) then none
      else if point && fraction.isEmpty then none
      else if mark && power.isEmpty then none
      else
        let exponent := if mark then some (sign * Decimal.digitsValue power) else none
        some (numberValue negative whole fraction exponent, cs)) :=
  rfl

theorem splitMinus_append (cs : List Char) {rest : List Char} (h : Ends rest) :
    splitMinus (cs ++ rest) = ((splitMinus cs).1, (splitMinus cs).2 ++ rest) := by
  cases cs with
  | nil =>
    cases rest with
    | nil => rfl
    | cons c rest =>
      have hc : c ≠ '-' := by rintro rfl; exact absurd h.head (by decide)
      simp [splitMinus, hc]
  | cons c cs =>
    by_cases hc : c = '-'
    · subst hc; rfl
    · simp [splitMinus, hc]

theorem splitFraction_append (cs : List Char) {rest : List Char} (h : Ends rest) :
    splitFraction (cs ++ rest) =
      ((splitFraction cs).1, (splitFraction cs).2.1, (splitFraction cs).2.2 ++ rest) := by
  cases cs with
  | nil =>
    cases rest with
    | nil => rfl
    | cons c rest =>
      have hc : c ≠ '.' := by rintro rfl; exact absurd h.head (by decide)
      simp [splitFraction, hc]
  | cons c cs =>
    by_cases hc : c = '.'
    · subst hc
      obtain ⟨htake, hdrop⟩ := takeWhile_isDigit_append cs h
      simp [splitFraction, htake, hdrop]
    · simp [splitFraction, hc]

theorem splitMark_append (cs : List Char) {rest : List Char} (h : Ends rest) :
    splitMark (cs ++ rest) =
      ((splitMark cs).1, (splitMark cs).2.1, (splitMark cs).2.2 ++ rest) := by
  have hmark : ∀ c cs, rest = c :: cs → c ≠ 'e' ∧ c ≠ 'E' ∧ c ≠ '-' ∧ c ≠ '+' := by
    rintro c cs rfl
    refine ⟨?_, ?_, ?_, ?_⟩ <;> (rintro rfl; exact absurd h.head (by decide))
  match cs with
  | [] =>
    cases rest with
    | nil => rfl
    | cons c rest =>
      obtain ⟨he, hE, -, -⟩ := hmark c rest rfl
      simp [splitMark, he, hE]
  | [c] =>
    cases rest with
    | nil => simp
    | cons d rest =>
      obtain ⟨-, -, hminus, hplus⟩ := hmark d rest rfl
      by_cases he : c = 'e'
      · subst he; simp [splitMark, hminus, hplus]
      · by_cases hE : c = 'E'
        · subst hE; simp [splitMark, hminus, hplus]
        · simp [splitMark, he, hE]
  | c :: d :: cs =>
    by_cases he : c = 'e' <;> by_cases hE : c = 'E' <;> by_cases hm : d = '-' <;>
      by_cases hp : d = '+' <;> simp [splitMark, he, hE, hm, hp]

/-- A number is read in the same way whatever follows it. -/
theorem number?_append {cs tail rest : List Char} {d : Data} (h : number? cs = some (d, tail))
    (hrest : Ends rest) : number? (cs ++ rest) = some (d, tail ++ rest) := by
  rw [number?_eq] at h ⊢
  simp only [splitMinus_append _ hrest, takeWhile_isDigit_append _ hrest,
    splitFraction_append _ hrest, splitMark_append _ hrest] at h ⊢
  split_ifs at h ⊢ with hwhole hfraction hpower hmark
  all_goals
    simp only [Option.some.injEq, Prod.mk.injEq] at h ⊢
    exact ⟨h.1, by rw [← h.2]⟩

/-! ## Written numbers -/

theorem isNumeral_of_isDigit {c : Char} (h : c.isDigit = true) : isNumeral c = true := by
  simp [isNumeral, h]

theorem isNumeral_of_mem_toDigits {n : Nat} {c : Char} (h : c ∈ Nat.toDigits 10 n) :
    isNumeral c = true :=
  isNumeral_of_isDigit (Nat.isDigit_of_mem_toDigits (by decide) (by decide) h)

theorem digitsValue_eq_ofDigitChars (cs : List Char) :
    Decimal.digitsValue cs = Nat.ofDigitChars 10 cs 0 := by
  simp only [Decimal.digitsValue, Nat.ofDigitChars]
  congr 1
  funext n c
  omega

/-- The digits of a number other than zero do not begin with a zero. -/
theorem head?_toDigits_ne_zero {n : Nat} (h : 0 < n) : (Nat.toDigits 10 n).head? ≠ some '0' := by
  induction n using Nat.strongRecOn with
  | ind n ih =>
    rw [Nat.toDigits_eq_if (by decide)]
    split
    · rename_i hlt
      have hall : ∀ k : Fin 10, 0 < k.val → [Nat.digitChar k.val].head? ≠ some '0' := by decide
      exact hall ⟨n, hlt⟩ h
    · rename_i hge
      have hrec := ih (n / 10) (by omega) (by omega)
      cases hds : Nat.toDigits 10 (n / 10) with
      | nil => exact absurd hds Nat.toDigits_ne_nil
      | cons d ds => rw [hds] at hrec; simpa using hrec

theorem numberValue_toDigits {n : Nat} {digits : List Char} (h : n < UInt64.size)
    (hvalue : Decimal.digitsValue digits = n) : numberValue false digits [] none = .whole n := by
  have hfits : decide (n < UInt64.size) = true := decide_eq_true h
  unfold numberValue
  rw [hvalue]
  dsimp only
  rw [if_neg (by simp), if_pos (by simpa using hfits)]

/-- A whole number that fits in 64 bits is read back from its digits. -/
theorem number?_toDigits {n : Nat} (h : n < UInt64.size) :
    number? (Nat.toDigits 10 n) = some (.whole n, []) := by
  have hdigit : ∀ c ∈ Nat.toDigits 10 n, c.isDigit = true := fun c hc =>
    Nat.isDigit_of_mem_toDigits (by decide) (by decide) hc
  have hsign : splitMinus (Nat.toDigits 10 n) = (false, Nat.toDigits 10 n) := by
    cases hds : Nat.toDigits 10 n with
    | nil => rfl
    | cons c cs =>
      have hc : c ≠ '-' := by
        rintro rfl
        exact absurd (hdigit '-' (by rw [hds]; exact List.mem_cons_self)) (by decide)
      simp [splitMinus, hc]
  have hzero : ¬((Nat.toDigits 10 n).isEmpty
      || ((Nat.toDigits 10 n).head? = some '0' && (Nat.toDigits 10 n).length ≠ 1)) = true := by
    rcases Nat.eq_zero_or_pos n with rfl | hpos
    · decide
    · have := head?_toDigits_ne_zero hpos
      have hne : Nat.toDigits 10 n ≠ [] := Nat.toDigits_ne_nil
      simp [this, hne]
  have hvalue : Decimal.digitsValue (Nat.toDigits 10 n) = n := by
    rw [digitsValue_eq_ofDigitChars, Nat.ofDigitChars_ten_toDigits]
  rw [number?_eq]
  simp only [hsign, List.takeWhile_eq_self_iff.2 hdigit, List.dropWhile_eq_nil_iff.2 hdigit]
  simp only [splitFraction, splitMark, if_neg hzero]
  exact congrArg some (congrArg (·, []) (numberValue_toDigits h hvalue))

theorem isNumeral_of_mem_toString {n : Int} {c : Char} (h : c ∈ (toString n).toList) :
    isNumeral c = true := by
  cases n with
  | ofNat n =>
    rw [show toString (Int.ofNat n) = toString n from rfl, Nat.toString_eq_ofList_toDigits,
      String.toList_ofList] at h
    exact isNumeral_of_mem_toDigits h
  | negSucc n =>
    rw [show toString (Int.negSucc n) = "-" ++ toString (n + 1) from rfl, String.toList_append]
      at h
    rcases List.mem_append.1 h with h | h
    · have : c = '-' := by simpa using h
      rw [this]
      rfl
    · rw [Nat.toString_eq_ofList_toDigits, String.toList_ofList] at h
      exact isNumeral_of_mem_toDigits h

/-- A written numeral holds nothing but the characters of a number. -/
theorem all_isNumeral_write (layout : NumberLayout) (d : Decimal) :
    (d.write layout).toList.all isNumeral = true := by
  have hdigits : (Nat.toDigits 10 d.digits).all isNumeral = true :=
    List.all_eq_true.2 fun c hc => isNumeral_of_mem_toDigits hc
  have htake (k : Nat) : ((Nat.toDigits 10 d.digits).take k).all isNumeral = true :=
    List.all_eq_true.2 fun c hc => List.all_eq_true.1 hdigits c (List.mem_of_mem_take hc)
  have hdrop (k : Nat) : ((Nat.toDigits 10 d.digits).drop k).all isNumeral = true :=
    List.all_eq_true.2 fun c hc => List.all_eq_true.1 hdigits c (List.mem_of_mem_drop hc)
  have hzeros (k : Nat) : (List.replicate k '0').all isNumeral = true :=
    List.all_eq_true.2 fun c hc => by rw [(List.mem_replicate.1 hc).2]; rfl
  have hint (n : Int) : (toString n).toList.all isNumeral = true :=
    List.all_eq_true.2 fun c hc => isNumeral_of_mem_toString hc
  have hpoint : isNumeral '.' = true := rfl
  have hmark : isNumeral 'e' = true := rfl
  have hminus : isNumeral '-' = true := rfl
  have hzero : isNumeral '0' = true := rfl
  simp only [Decimal.write, String.toList_append, String.toList_ofList, List.all_append,
    Bool.and_eq_true]
  constructor
  · split <;> simp [hminus]
  · split_ifs <;>
      simp only [List.all_append, List.all_cons, List.all_nil, hdigits, htake, hdrop, hzeros, hint,
        hpoint, hmark, hzero, Bool.and_true]

theorem splitMinus_suffix (cs : List Char) : (splitMinus cs).2 <:+ cs := by
  unfold splitMinus
  split
  · exact List.suffix_cons ..
  · exact List.suffix_rfl

theorem splitFraction_suffix (cs : List Char) : (splitFraction cs).2.2 <:+ cs := by
  unfold splitFraction
  split
  · exact (List.dropWhile_suffix _).trans (List.suffix_cons ..)
  · exact List.suffix_rfl

theorem splitMark_suffix (cs : List Char) : (splitMark cs).2.2 <:+ cs := by
  unfold splitMark
  split
  iterate 4 exact (List.suffix_cons ..).trans (List.suffix_cons ..)
  iterate 2 exact List.suffix_cons ..
  exact List.suffix_rfl

/-- What a number leaves is the end of the text. -/
theorem number?_suffix {cs tail : List Char} {d : Data} (h : number? cs = some (d, tail)) :
    tail <:+ cs := by
  have hmark := ((splitMark_suffix _).trans (splitFraction_suffix _)).trans
    ((List.dropWhile_suffix Char.isDigit).trans (splitMinus_suffix cs))
  rw [number?_eq] at h
  simp only at h
  split_ifs at h with hwhole hfraction hpower hdigits
  all_goals
    simp only [Option.some.injEq, Prod.mk.injEq] at h
    rw [← h.2]
  · exact (List.dropWhile_suffix _).trans hmark
  · exact hmark

end Json

end QueryCanvas
