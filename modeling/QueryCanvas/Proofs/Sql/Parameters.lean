import Mathlib.Data.List.TakeWhile
import Mathlib.Data.Set.Lattice
import QueryCanvas.Proofs.Sql.Quote
import QueryCanvas.Proofs.Sql.Scanning
import QueryCanvas.Sql.Print

/-!
# The parameters of texts that are put together

A text is complete if it ends outside of quotes and comments and leaves no parameter open.  Complete
texts with blanks, commas or parentheses between them have the parameters of all of them and no
others.  Names and values are complete as they are written, whatever they are: a name has no
parameters, and a value has some only if it is one.
-/

set_option autoImplicit false

namespace QueryCanvas

namespace Parameter

/-! ## Names of parameters -/

/-- The names of the parameters in a text, as a set. -/
def shown (s : String) : Set String := {name | name ∈ names s}

/-- The names of the parameters in any of some texts. -/
def shownAmong (texts : List String) : Set String := {name | ∃ text ∈ texts, name ∈ shown text}

theorem shownAmong_cons (text : String) (texts : List String) :
    shownAmong (text :: texts) = shown text ∪ shownAmong texts := by
  ext name
  simp [shownAmong]

theorem shownAmong_append (texts texts' : List String) :
    shownAmong (texts ++ texts') = shownAmong texts ∪ shownAmong texts' := by
  ext name
  simp [shownAmong, or_and_right, exists_or]

/-- The names of the parameters among the pieces of a scanned text. -/
def namesOf (ps : List Piece) : Set String :=
  {name | ∃ p, Piece.parameter p ∈ ps ∧ String.ofList p.name = name}

/-- No name is lost when the repeated ones are left out. -/
theorem mem_foldl_names {name : String} (ps : List Parameter) (known : List String) :
    name ∈ ps.foldl (fun known p =>
        if known.contains (String.ofList p.name) then known else known ++ [String.ofList p.name])
      known ↔ name ∈ known ∨ ∃ p ∈ ps, String.ofList p.name = name := by
  induction ps generalizing known with
  | nil => simp
  | cons p ps ih =>
    rw [List.foldl_cons, ih, List.exists_mem_cons_iff, ← or_assoc]
    refine or_congr_left ?_
    by_cases hp : known.contains (String.ofList p.name)
    · rw [if_pos hp]
      refine (or_iff_left_of_imp ?_).symm
      rintro rfl
      simpa using hp
    · rw [if_neg hp, List.mem_append, List.mem_singleton, eq_comm (a := name)]

theorem shown_eq (s : String) : shown s = namesOf (scan .code s.toList).1 := by
  ext name
  refine (mem_foldl_names (occurrences s) []).trans ?_
  rw [or_iff_right List.not_mem_nil]
  constructor
  · rintro ⟨p, hp, hname⟩
    obtain ⟨piece, hpiece, hparameter⟩ := List.mem_filterMap.1 hp
    cases piece with
    | plain c => cases hparameter
    | parameter p' =>
      cases hparameter
      exact ⟨_, hpiece, hname⟩
  · rintro ⟨p, hpiece, hname⟩
    exact ⟨p, List.mem_filterMap.2 ⟨_, hpiece, rfl⟩, hname⟩

theorem namesOf_nil : namesOf [] = ∅ := by simp [namesOf]

theorem namesOf_plain (c : Char) (ps : List Piece) : namesOf (.plain c :: ps) = namesOf ps := by
  ext name
  simp [namesOf]

theorem namesOf_append (ps ps' : List Piece) : namesOf (ps ++ ps') = namesOf ps ∪ namesOf ps' := by
  ext name
  simp only [namesOf, List.mem_append, or_and_right, exists_or]
  rfl

/-! ## Complete texts -/

/-- The text ends outside of quotes and comments and leaves no parameter open. -/
structure Complete (s : String) : Prop where
  ends_in_code : (scan .code s.toList).2 = .code
  closed : ∀ cs ∈ s.toList.tails, isOpen cs = false

instance (s : String) : Decidable (Complete s) :=
  decidable_of_iff ((scan .code s.toList).2 = .code ∧ ∀ cs ∈ s.toList.tails, isOpen cs = false)
    ⟨fun h => ⟨h.1, h.2⟩, fun h => ⟨h.1, h.2⟩⟩

/-- The text is complete, and these are the names of its parameters. -/
structure Shows (s : String) (S : Set String) : Prop extends Complete s where
  shown : shown s = S

theorem Complete.shows {s : String} (h : Complete s) : Shows s (Parameter.shown s) := ⟨h, rfl⟩

theorem Complete.shows_nothing {s : String} (h : Complete s) (hnames : names s = []) :
    Shows s ∅ := by
  refine ⟨h, ?_⟩
  ext name
  simp [Parameter.shown, hnames]

/-- The characters that belong to no mark and open no quotes. -/
def isPlain (c : Char) : Bool := !isMark c && !isQuote c

theorem isPlain_of_isNamePart {c : Char} (h : isNamePart c) : isPlain c := by
  by_contra hplain
  simp only [isPlain, isMark, isQuote, Bool.and_eq_true, Bool.not_eq_true', Bool.or_eq_false_iff,
    beq_eq_false_iff_ne, not_and_or, not_not] at hplain
  revert h
  rcases hplain with ((((rfl | rfl) | rfl) | rfl) | rfl) | (rfl | rfl) | rfl
  all_goals decide

/-- All characters of the text are plain. -/
def isPlainText (s : String) : Bool := s.toList.all isPlain

namespace Shows

variable {x y : String} {S S' : Set String}

theorem congr (h : Shows x S) (hnames : ∀ name, name ∈ S' ↔ name ∈ S) : Shows x S' :=
  Set.ext hnames ▸ h

theorem empty : Shows "" ∅ := by
  refine ⟨⟨by simp [scan], by simp [isOpen]⟩, ?_⟩
  rw [shown_eq, String.toList_empty, scan, namesOf_nil]

/-- A text behind which another one follows that completes no mark. -/
theorem append (h : Shows x S) (h' : Shows y S') (hy : Follows y.toList) :
    Shows (x ++ y) (S ∪ S') := by
  have hscan : scan .code (x ++ y).toList =
      ((scan .code x.toList).1 ++ (scan .code y.toList).1, (scan .code y.toList).2) := by
    rw [String.toList_append, scan_append .code
      (fun s hs => h.closed s ((List.mem_tails _ _).2 hs)) hy, h.ends_in_code]
  refine ⟨⟨by rw [hscan, h'.ends_in_code], fun cs hcs => ?_⟩, ?_⟩
  · rw [String.toList_append, List.tails_append] at hcs
    rcases List.mem_append.1 hcs with hcs | hcs
    · obtain ⟨front, hfront, rfl⟩ := List.mem_map.1 hcs
      by_cases hne : front = []
      · rw [hne, List.nil_append]
        exact h'.closed _ ((List.mem_tails _ _).2 (List.suffix_refl _))
      · exact isOpen_append hne (h.closed front hfront) hy
    · exact h'.closed cs (List.mem_of_mem_tail hcs)
  · rw [shown_eq, hscan, namesOf_append, ← shown_eq, ← shown_eq, h.shown, h'.shown]

/-- A character before a text that opens no quotes and begins no mark. -/
theorem cons {c : Char} (hquote : isQuote c = false) (hbrace : c ≠ '{')
    (hdash : c = '-' → y.toList.head? ≠ some '-') (hslash : c = '/' → y.toList.head? ≠ some '*')
    (h : Shows y S) : Shows (String.singleton c ++ y) S := by
  have hchars : (String.singleton c ++ y).toList = c :: y.toList := by simp
  have hat : at? (c :: y.toList) = none := by
    unfold at?
    split
    · rename_i heq
      exact absurd (List.cons.inj heq).1 hbrace
    · rfl
  have hscan : scan .code (String.singleton c ++ y).toList =
      (.plain c :: (scan .code y.toList).1, (scan .code y.toList).2) := by
    rw [hchars, scan_code_plain hdash hslash hat, hquote]
    rfl
  refine ⟨⟨by rw [hscan, h.ends_in_code], fun cs hcs => ?_⟩, ?_⟩
  · rw [hchars, List.tails_cons] at hcs
    rcases List.mem_cons.1 hcs with rfl | hcs
    · unfold isOpen
      split
      · rename_i heq
        exact absurd (List.cons.inj heq).1 hbrace
      · rfl
    · exact h.closed cs hcs
  · rw [shown_eq, hscan, namesOf_plain, ← h.shown, shown_eq]

/-- A plain text before another text. -/
theorem after (hx : isPlainText x) (h : Shows y S) : Shows (x ++ y) S := by
  have hchars : ∀ cs : List Char, cs.all isPlain → Shows (String.ofList cs ++ y) S := by
    intro cs hcs
    induction cs with
    | nil => simpa using h
    | cons c cs ih =>
      simp only [List.all_cons, isPlain, isMark, Bool.and_eq_true, Bool.not_eq_true',
        Bool.or_eq_false_iff, beq_eq_false_iff_ne] at hcs
      obtain ⟨⟨⟨⟨⟨⟨hbrace, -⟩, hdash⟩, hslash⟩, -⟩, hquote⟩, hrest⟩ := hcs
      have hrest := (ih hrest).cons hquote hbrace (absurd · hdash) (absurd · hslash)
      rwa [← String.append_assoc, ← String.ofList_cons] at hrest
  have hall := hchars x.toList hx
  rwa [String.ofList_toList] at hall

theorem plain (hx : isPlainText x) : Shows x ∅ := by
  have h := empty.after hx
  rwa [String.append_empty] at h

/-- Two texts with a plain text between them. -/
theorem separated (sep : String) (hsep : isPlainText sep) (hne : sep ≠ "") (h : Shows x S)
    (h' : Shows y S') : Shows (x ++ sep ++ y) (S ∪ S') := by
  rw [String.append_assoc]
  refine h.append (h'.after hsep) ?_
  rw [String.toList_append]
  cases hchars : sep.toList with
  | nil => exact absurd (String.toList_eq_nil_iff.1 hchars) hne
  | cons c cs =>
    rw [isPlainText, hchars, List.all_cons, Bool.and_eq_true, isPlain, Bool.and_eq_true,
      Bool.not_eq_true'] at hsep
    exact follows_cons.2 hsep.1.1

/-- A text without parameters behind another text. -/
theorem silent (sep : String) (hsep : isPlainText sep) (hne : sep ≠ "") (h : Shows x S)
    (h' : Shows y ∅) : Shows (x ++ sep ++ y) S := by
  have hall := h.separated sep hsep hne h'
  rwa [Set.union_empty] at hall

/-- A plain text behind another text. -/
theorem before (h : Shows x S) (hsep : isPlainText y) : Shows (x ++ y) S := by
  by_cases hne : y = ""
  · rwa [hne, String.append_empty]
  · have hall := h.silent y hsep hne empty
    rwa [String.append_empty] at hall

/-- Texts that follow each other, each with a plain text in front. -/
theorem join {α : Type} (sep : String) (hsep : isPlainText sep) (hne : sep ≠ "") {f : α → String}
    (hf : ∀ a, Shows (f a) ∅) (items : List α) (h : Shows x S) :
    Shows (x ++ String.join (items.map fun a => sep ++ f a)) S := by
  induction items generalizing x with
  | nil => simpa using h
  | cons a rest ih =>
    rw [List.map_cons, String.join_cons, ← String.append_assoc, ← String.append_assoc]
    exact ih (h.silent sep hsep hne (hf a))

end Shows

/-- The texts are complete, and these are the names of the parameters in any of them. -/
inductive ShowsAll : List String → Set String → Prop
  | nil : ShowsAll [] ∅
  | cons {x : String} {xs : List String} {S S' : Set String} (h : Shows x S)
      (hrest : ShowsAll xs S') : ShowsAll (x :: xs) (S ∪ S')

namespace ShowsAll

variable {xs ys : List String} {S S' : Set String}

theorem single {x : String} (h : Shows x S) : ShowsAll [x] S := by
  have hall := cons h nil
  rwa [Set.union_empty] at hall

theorem eq_empty (h : ShowsAll [] S) : S = ∅ := by
  cases h
  rfl

theorem append (h : ShowsAll xs S) (h' : ShowsAll ys S') : ShowsAll (xs ++ ys) (S ∪ S') := by
  induction h with
  | nil => rwa [Set.empty_union]
  | cons hfirst _ ih =>
    rw [Set.union_assoc]
    exact .cons hfirst ih

theorem flatMap {α : Type} {l : List α} {f : α → List String} {T : α → Set String}
    (h : ∀ a ∈ l, ShowsAll (f a) (T a)) : ShowsAll (l.flatMap f) (⋃ a ∈ l, T a) := by
  induction l with
  | nil => simpa using nil
  | cons a rest ih =>
    have hunion : (⋃ b ∈ a :: rest, T b) = T a ∪ ⋃ b ∈ rest, T b := by
      ext name
      simp
    rw [hunion]
    exact (h a List.mem_cons_self).append (ih fun b hb => h b (List.mem_cons_of_mem _ hb))

theorem map {α : Type} {l : List α} {f : α → String} {T : α → Set String}
    (h : ∀ a ∈ l, Shows (f a) (T a)) : ShowsAll (l.map f) (⋃ a ∈ l, T a) := by
  rw [List.map_eq_flatMap]
  exact flatMap fun a ha => single (h a ha)

theorem silent {α : Type} {l : List α} {f : α → String} (h : ∀ a ∈ l, Shows (f a) ∅) :
    ShowsAll (l.map f) ∅ := by
  have hall := map h
  simp only [Set.iUnion_empty] at hall
  exact hall

/-- Texts with a plain text between them. -/
theorem intercalate (sep : String) (hsep : isPlainText sep) (hne : sep ≠ "")
    (h : ShowsAll xs S) : Shows (sep.intercalate xs) S := by
  induction h with
  | nil => exact .empty
  | @cons x xs S S' hfirst hrest ih =>
    cases hrest with
    | nil =>
      rw [Set.union_empty]
      simpa using hfirst
    | cons =>
      rw [String.intercalate_cons_cons]
      exact hfirst.separated sep hsep hne ih

end ShowsAll

/-! ## What stands between quotes or braces -/

theorem mem_dropWhile {p : Char → Bool} {c : Char} (hc : p c = false) {cs : List Char}
    (h : c ∈ cs) : c ∈ cs.dropWhile p := by
  rw [← List.takeWhile_append_dropWhile (p := p) (l := cs)] at h
  refine (List.mem_append.1 h).resolve_left fun hmem => ?_
  rw [List.mem_takeWhile_imp hmem] at hc
  cases hc

/-- The characters that cannot be the last one of a text that leaves a parameter open. -/
def isClosing (c : Char) : Bool := !Text.isBlank c && !isNamePart c && c != '{'

theorem isOpen_eq_false {cs : List Char} {c : Char} (hlast : cs.getLast? = some c)
    (hc : isClosing c) : isOpen cs = false := by
  simp only [isClosing, Bool.and_eq_true, Bool.not_eq_true', bne_iff_ne] at hc
  obtain ⟨⟨hblank, hname⟩, hbrace⟩ := hc
  unfold isOpen
  split
  · rename_i rest
    have hmem : c ∈ rest := by
      cases rest with
      | nil => exact absurd (Option.some.inj hlast).symm hbrace
      | cons x rest => exact List.mem_of_getLast? hlast
    rw [List.isEmpty_eq_false_iff_exists_mem]
    exact ⟨c, mem_dropWhile hblank (mem_dropWhile hname (mem_dropWhile hblank hmem))⟩
  · rfl

/-- What ends with such a character leaves nothing open. -/
theorem closed_of_last {cs : List Char} {c : Char} (hlast : cs.getLast? = some c)
    (hc : isClosing c) : ∀ tail ∈ cs.tails, isOpen tail = false := by
  intro tail htail
  obtain ⟨front, hfront⟩ := (List.mem_tails _ _).1 htail
  cases tail with
  | nil => rfl
  | cons x tail =>
    refine isOpen_eq_false (c := c) ?_ hc
    rw [← hlast, ← hfront, List.getLast?_append_cons]

theorem complete_of_isParameter {s : String} (h : isParameter s) : Complete s := by
  unfold isParameter at h
  split at h
  · rename_i p rest hat
    obtain rfl := List.isEmpty_iff.1 h
    obtain ⟨front, hfront, -⟩ := at?_eq_some hat
    refine ⟨?_, closed_of_last (c := '}') (by simp [hfront]) (by decide)⟩
    cases hs : s.toList with
    | nil =>
      rw [hs] at hat
      cases hat
    | cons c cs =>
      rw [hs] at hat
      rw [scan_parameter hat, scan]
  · cases h

theorem at?_quote {mark : Char} (hmark : isQuote mark) (cs : List Char) :
    at? (mark :: cs) = none := by
  unfold at?
  split
  · rename_i heq
    rw [(List.cons.inj heq).1] at hmark
    cases hmark
  · rfl

theorem scan_quote {mark : Char} (hmark : isQuote mark) (cs : List Char) :
    scan .code (mark :: cs) =
      (.plain mark :: (scan (.quoted mark) cs).1, (scan (.quoted mark) cs).2) := by
  rw [scan_code_plain (by rintro rfl; cases hmark) (by rintro rfl; cases hmark)
    (at?_quote hmark cs), if_pos hmark]

/-- Between quotes a scan finds no parameters. -/
theorem scan_doubled {mark : Char} (hmark : isQuote mark) (cs : List Char) :
    ∃ ps, namesOf ps = ∅ ∧ scan (.quoted mark) (Sql.doubled mark cs ++ [mark]) = (ps, .code) := by
  induction cs with
  | nil => exact ⟨[.plain mark], by rw [namesOf_plain, namesOf_nil], by simp [Sql.doubled, scan]⟩
  | cons c cs ih =>
    obtain ⟨ps, hps, hscan⟩ := ih
    rw [Sql.doubled, List.flatMap_cons, ← Sql.doubled]
    by_cases hc : c = mark
    · refine ⟨.plain mark :: .plain mark :: ps, by rw [namesOf_plain, namesOf_plain, hps], ?_⟩
      rw [if_pos hc, List.cons_append, List.cons_append, List.cons_append, scan, if_pos rfl,
        List.nil_append, List.cons_append, scan_quote hmark, hscan]
    · refine ⟨.plain c :: ps, by rw [namesOf_plain, hps], ?_⟩
      rw [if_neg hc, List.cons_append, List.cons_append, List.nil_append, scan, if_neg hc, hscan]

theorem shows_quoted {mark : Char} (hmark : isQuote mark) (s : String) :
    Shows (Sql.quoted mark s) ∅ := by
  obtain ⟨ps, hps, hscan⟩ := scan_doubled hmark s.toList
  have hall : scan .code (Sql.quoted mark s).toList = (.plain mark :: ps, .code) := by
    rw [Sql.toList_quoted, List.cons_append, scan_quote hmark, hscan]
  refine ⟨⟨by rw [hall], closed_of_last (c := mark) ?_ ?_⟩, ?_⟩
  · rw [Sql.toList_quoted, List.getLast?_concat]
  · simp only [isQuote, Bool.or_eq_true, beq_iff_eq] at hmark
    obtain (rfl | rfl) | rfl := hmark <;> decide
  · rw [shown_eq, hall, namesOf_plain, hps]

end Parameter

namespace Decimal

/-! ## Numerals part by part -/

/-- Takes a sign off a numeral; it is set for a minus. -/
def splitSign : List Char → Bool × List Char
  | '-' :: rest => (true, rest)
  | '+' :: rest => (false, rest)
  | rest => (false, rest)

/-- Takes a point and the digits behind it off a numeral. -/
def splitPoint (cs : List Char) : List Char × List Char :=
  match cs with
  | '.' :: tail => (tail.takeWhile Char.isDigit, tail.dropWhile Char.isDigit)
  | _ => ([], cs)

/-- A numeral is read part by part: sign, digits, fraction, exponent. -/
theorem read?_eq (cs : List Char) :
    read? cs =
      (let (negative, cs) := splitSign cs
      let whole := cs.takeWhile Char.isDigit
      let (fraction, rest) := splitPoint (cs.dropWhile Char.isDigit)
      if whole.isEmpty && fraction.isEmpty then none
      else
        (readExponent? rest).map fun e =>
          { negative, digits := digitsValue (whole ++ fraction)
            exponent := e - fraction.length }) :=
  rfl

/-- An exponent is a mark and digits, perhaps with a sign between them. -/
theorem readExponent?_cons (c : Char) (rest : List Char) :
    readExponent? (c :: rest) =
      if c == 'e' || c == 'E' then
        let (negative, ds) := splitSign rest
        if ds.isEmpty || !ds.all Char.isDigit then none
        else some ((if negative then (-1 : Int) else 1) * (digitsValue ds : Int))
      else none := by
  unfold readExponent?
  dsimp only
  split
  · split
    · rfl
    · rfl
    · rename_i hminus hplus
      have hsign : splitSign rest = (false, rest) := by
        unfold splitSign
        split
        · exact absurd rfl (hminus _)
        · exact absurd rfl (hplus _)
        · rfl
      rw [hsign]
      rfl
  · rfl

theorem digits_of_readExponent? {c : Char} {rest : List Char}
    (h : (readExponent? (c :: rest)).isSome) :
    (c = 'e' ∨ c = 'E') ∧ (splitSign rest).2.all Char.isDigit := by
  rw [readExponent?_cons] at h
  split at h
  · rename_i hc
    dsimp only at h
    split at h
    · cases h
    · rename_i hdigits
      rw [Bool.not_eq_true, Bool.or_eq_false_iff, Bool.not_eq_false'] at hdigits
      exact ⟨by simpa using hc, hdigits.2⟩
  · cases h

end Decimal

namespace Sql

open Parameter Decimal

/-! ## Names and values -/

theorem head_of_isParameter {s : String} (h : Parameter.isParameter s = true) :
    s.toList.head? = some '\x7b' := by
  unfold Parameter.isParameter Parameter.at? at h
  split at h
  · rename_i hat
    split at hat
    · rename_i heq
      rw [heq]
      rfl
    · cases hat
  · cases h

/-- A numeral begins with a sign, a digit or a point. -/
theorem head_of_isNumber {s : String} (h : isNumber s = true) :
    ∃ c ∈ s.toList.head?, c.isDigit = true ∨ c = '.' ∨ c = '-' ∨ c = '+' := by
  have hread : (Decimal.read? s.toList).isSome = true := by
    unfold isNumber at h
    cases hr : Decimal.read? s.toList with
    | none => rw [hr] at h; cases h
    | some _ => rfl
  cases hs : s.toList with
  | nil => rw [hs] at hread; revert hread; decide
  | cons c cs =>
    refine ⟨c, rfl, ?_⟩
    by_cases hsign : c = '-' ∨ c = '+'
    · exact .inr (.inr hsign)
    · rw [not_or] at hsign
      by_contra hnone
      simp only [not_or, Bool.not_eq_true] at hnone
      rw [hs] at hread
      simp [Decimal.read?, hsign, hnone] at hread

theorem formatValue_of_bare {s : String} (h : Parameter.isParameter s = true ∨ isNumber s = true) :
    formatValue s = s := by
  rw [formatValue, if_pos (by simpa using h)]

theorem formatValue_of_quoted {s : String} (hp : Parameter.isParameter s = false)
    (hn : isNumber s = false) : formatValue s = quoted '\'' s := by
  rw [formatValue, if_neg (by simp [hp, hn])]

/-- A text that is written without quotes does not begin with one. -/
theorem head_ne_quote {s : String} (h : Parameter.isParameter s = true ∨ isNumber s = true) :
    s.toList.head? ≠ some '\'' := by
  intro hhead
  rcases h with h | h
  · rw [head_of_isParameter h] at hhead
    cases hhead
  · obtain ⟨c, hc, hcase⟩ := head_of_isNumber h
    rw [hhead] at hc
    cases hc
    revert hcase
    decide

theorem shows_quoteName (name : String) : Shows (quoteName name) ∅ := by
  unfold quoteName
  split
  · rename_i hplain
    rw [isPlainName, Bool.and_eq_true, List.all_eq_true] at hplain
    exact .plain (List.all_eq_true.2 fun c hc => isPlain_of_isNamePart (hplain.2 c hc))
  · exact shows_quoted rfl name

theorem shows_quotePath (name : String) : Shows (quotePath name) ∅ := by
  have hparts := ShowsAll.silent (l := Text.splitAt '.' name) fun part _ => shows_quoteName part
  exact hparts.intercalate "." rfl (by decide)

theorem shows_columnRef (table column : String) : Shows (columnRef table column) ∅ :=
  (shows_quotePath table).silent "." rfl (by decide) (shows_quoteName column)

theorem plain_digits {cs : List Char} (h : cs.all Char.isDigit) :
    isPlainText (String.ofList cs) := by
  rw [isPlainText, String.toList_ofList, List.all_eq_true]
  intro c hc
  have hdigit := List.all_eq_true.1 h c hc
  exact isPlain_of_isNamePart (by simp [isNamePart, Char.isAlphanum, hdigit])

/-- A text begins with at most one sign if what is behind a sign begins with none. -/
theorem shows_of_splitSign {cs : List Char} (h : Shows (String.ofList (splitSign cs).2) ∅)
    (hhead : (splitSign cs).2.head? ≠ some '-') : Shows (String.ofList cs) ∅ := by
  unfold splitSign at h hhead
  split at h
  · rw [String.ofList_cons]
    exact h.cons rfl (by decide) (fun _ => by rwa [String.toList_ofList]) nofun
  · rw [String.ofList_cons]
    exact h.cons rfl (by decide) nofun nofun
  · exact h

theorem head?_ne_minus {cs : List Char} (h : cs.all Char.isDigit) : cs.head? ≠ some '-' := by
  intro hhead
  have hdigit := List.all_eq_true.1 h '-' (List.mem_of_mem_head? hhead)
  revert hdigit
  decide

theorem shows_exponent {cs : List Char} (h : (readExponent? cs).isSome) :
    Shows (String.ofList cs) ∅ := by
  cases cs with
  | nil => exact .empty
  | cons c rest =>
    obtain ⟨hc, hdigits⟩ := digits_of_readExponent? h
    rw [String.ofList_cons]
    refine (shows_of_splitSign (.plain (plain_digits hdigits)) (head?_ne_minus hdigits)).after ?_
    rcases hc with rfl | rfl <;> rfl

theorem all_takeWhile (p : Char → Bool) (cs : List Char) : (cs.takeWhile p).all p :=
  List.all_eq_true.2 fun _ hc => List.mem_takeWhile_imp hc

theorem shows_point {cs : List Char} (h : (readExponent? (splitPoint cs).2).isSome) :
    Shows (String.ofList cs) ∅ := by
  unfold splitPoint at h
  split at h
  · rename_i tail
    have hdigits := plain_digits (all_takeWhile Char.isDigit tail)
    have hrest := ((shows_exponent h).after hdigits).after (x := ".") rfl
    rw [← String.ofList_append, List.takeWhile_append_dropWhile] at hrest
    rwa [String.ofList_cons]
  · exact shows_exponent h

/-- A number has no parameters. -/
theorem shows_number {s : String} (h : isNumber s) : Shows s ∅ := by
  obtain ⟨d, hread⟩ : ∃ d, Decimal.read? s.toList = some d := by
    unfold isNumber at h
    cases hr : Decimal.read? s.toList with
    | none => rw [hr] at h; cases h
    | some d => exact ⟨d, rfl⟩
  rw [read?_eq] at hread
  dsimp only at hread
  split at hread
  · cases hread
  · rename_i hne
    obtain ⟨e, hexponent, -⟩ := Option.map_eq_some_iff.1 hread
    have hwhole := plain_digits (all_takeWhile Char.isDigit (splitSign s.toList).2)
    have hbody := (shows_point (by rw [hexponent]; rfl)).after hwhole
    rw [← String.ofList_append, List.takeWhile_append_dropWhile] at hbody
    rw [← String.ofList_toList (s := s)]
    refine shows_of_splitSign hbody fun hhead => hne ?_
    obtain ⟨tail, htail⟩ := List.head?_eq_some_iff.1 hhead
    rw [htail]
    rfl

/-- A value has parameters only if it is one. -/
theorem shows_formatValue (value : String) :
    Shows (formatValue value) {name | isParameter value ∧ name ∈ shown value} := by
  unfold formatValue
  by_cases hparameter : isParameter value
  · simpa [hparameter] using (complete_of_isParameter hparameter).shows
  · by_cases hnumber : isNumber value
    · simpa [hparameter, hnumber] using shows_number hnumber
    · have hquoted : Shows (quoted '\'' value) ∅ := shows_quoted rfl value
      simpa [hparameter, hnumber] using hquoted

end Sql

end QueryCanvas
