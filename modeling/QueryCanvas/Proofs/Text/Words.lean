import Mathlib.Data.List.Infix
import QueryCanvas.Lesson
import QueryCanvas.Proofs.Sql.Indentation
import QueryCanvas.Proofs.Sql.Quote

/-!
# Words and the blanks between them

A text may be exchanged for another one inside any text if this changes no words: blanks for other
blanks, and between blanks whatever has the same words.  The text in which each run of blanks is one
space has as its parts those of every part of the text it was made from; and what holds no
parenthesis and is found in it is found on one side of each parenthesis.
-/

set_option autoImplicit false

namespace QueryCanvas

namespace Text

variable {a a' b b' cs : List Char} {c d : Char}

/-! ## Words -/

/-- The words of a text, each as a list of characters. -/
def wordsOf (cs : List Char) : List (List Char) := (cutWhere isBlank cs).filter (!·.isEmpty)

theorem words_eq (s : String) : words s = (wordsOf s.toList).map String.ofList := rfl

theorem cutWhere_append {p : Char → Bool} (hc : p c) (a b : List Char) :
    cutWhere p (a ++ c :: b) = cutWhere p a ++ cutWhere p b := by
  induction a with
  | nil => simp [cutWhere, hc]
  | cons x a ih =>
    obtain ⟨piece, pieces, hcut⟩ := List.exists_cons_of_ne_nil (cutWhere_ne_nil p a)
    by_cases hx : p x <;> simp [cutWhere, hx, ih, hcut]

/-- No piece between cuts has a character at which it would be cut. -/
theorem not_of_mem_cutWhere {p : Char → Bool} {piece : List Char} (hpiece : piece ∈ cutWhere p cs)
    (hc : c ∈ piece) : p c = false := by
  induction cs generalizing piece with
  | nil =>
    rw [List.mem_singleton.1 hpiece] at hc
    cases hc
  | cons x cs ih =>
    obtain ⟨first, rest, hcut⟩ := List.exists_cons_of_ne_nil (cutWhere_ne_nil p cs)
    rw [hcut] at ih
    by_cases hx : p x
    · rw [cutWhere, if_pos hx, hcut] at hpiece
      rcases List.mem_cons.1 hpiece with rfl | hpiece
      · cases hc
      · exact ih hpiece hc
    · rw [cutWhere, if_neg hx, hcut] at hpiece
      rcases List.mem_cons.1 hpiece with rfl | hpiece
      · rcases List.mem_cons.1 hc with rfl | hc
        · simpa using hx
        · exact ih (by simp) hc
      · exact ih (List.mem_cons_of_mem _ hpiece) hc

theorem wordsOf_append (hc : isBlank c) (a b : List Char) :
    wordsOf (a ++ c :: b) = wordsOf a ++ wordsOf b := by
  rw [wordsOf, cutWhere_append hc, List.filter_append]
  rfl

theorem wordsOf_blanks (ha : ∀ c ∈ a, isBlank c) (b : List Char) :
    wordsOf (a ++ b) = wordsOf b := by
  induction a with
  | nil => rfl
  | cons c a ih =>
    rw [List.cons_append, ← List.nil_append (c :: (a ++ b)), wordsOf_append (ha c (by simp)),
      ih fun x hx => ha x (by simp [hx])]
    rfl

theorem wordsOf_append_blanks (ha : ∀ c ∈ a, isBlank c) (b : List Char) :
    wordsOf (b ++ a) = wordsOf b := by
  cases a with
  | nil => rw [List.append_nil]
  | cons c a =>
    rw [wordsOf_append (ha c (by simp)), ← List.append_nil a,
      wordsOf_blanks fun x hx => ha x (by simp [hx])]
    exact List.append_nil _

theorem wordsOf_intercalate (hc : isBlank c) (xs : List (List Char)) :
    wordsOf ([c].intercalate xs) = xs.flatMap wordsOf := by
  induction xs with
  | nil => rfl
  | cons x xs ih =>
    cases xs with
    | nil => simp [List.intercalate]
    | cons y ys =>
      rw [List.intercalate_cons_cons, List.append_assoc, List.singleton_append, wordsOf_append hc,
        ih]
      rfl

theorem wordsOf_dropReturn (line : List Char) : wordsOf (dropReturn line) = wordsOf line := by
  unfold dropReturn
  split
  · rename_i rest heq
    have hline : line = rest.reverse ++ ['\r'] := by
      rw [← List.reverse_reverse line, heq, List.reverse_cons]
    have hblank : ∀ c ∈ ['\r'], isBlank c := fun c hc => by
      rw [List.mem_singleton.1 hc]
      decide
    rw [hline, wordsOf_append_blanks hblank]
  · rfl

/-- The words of a text are those of its lines. -/
theorem wordsOf_lines (s : String) :
    (lines s).flatMap (fun line => wordsOf line.toList) = wordsOf s.toList := by
  have hpieces := Sql.intercalate_cutWhere '\n' s.toList
  obtain hnil | ⟨init, last, hcut⟩ := List.eq_nil_or_concat' (cutWhere (· == '\n') s.toList)
  · exact absurd hnil (cutWhere_ne_nil _ _)
  have hended : (init.map dropReturn).flatMap wordsOf = init.flatMap wordsOf := by
    rw [List.flatMap_map]
    exact List.flatMap_congr fun line _ => wordsOf_dropReturn line
  have hlines (xs : List (List Char)) :
      (xs.map String.ofList).flatMap (fun line => wordsOf line.toList) = xs.flatMap wordsOf := by
    simp [List.flatMap_map]
  rw [← hpieces, wordsOf_intercalate (by decide), lines, hlines]
  simp only [hcut, List.dropLast_concat, List.getLast?_concat, Option.getD_some,
    List.flatMap_append]
  cases last with
  | nil => rw [List.isEmpty_nil, if_pos rfl, hended]; exact (List.append_nil _).symm
  | cons c last => rw [if_neg (by simp), List.flatMap_append, hended]

/-! ## Exchanging texts inside texts -/

/-- In any text one of them may be exchanged for the other without a change of words. -/
def SameWords (a b : List Char) : Prop :=
  ∀ before after, wordsOf (before ++ a ++ after) = wordsOf (before ++ b ++ after)

namespace SameWords

theorem refl (a : List Char) : SameWords a a := fun _ _ => rfl

theorem append (h : SameWords a b) (h' : SameWords a' b') : SameWords (a ++ a') (b ++ b') := by
  intro before after
  have hfirst := h before (a' ++ after)
  have hlast := h' (before ++ b) after
  simp only [List.append_assoc] at hfirst hlast ⊢
  rw [hfirst, hlast]

theorem words (h : SameWords a b) : wordsOf a = wordsOf b := by simpa using h [] []

/-- Blanks for other blanks. -/
theorem blanks (hc : isBlank c) (hd : isBlank d) (ha : ∀ x ∈ a, isBlank x)
    (hb : ∀ x ∈ b, isBlank x) : SameWords (c :: a) (d :: b) := by
  intro before after
  rw [List.append_assoc, List.append_assoc, List.cons_append, List.cons_append,
    wordsOf_append hc, wordsOf_append hd, wordsOf_blanks ha, wordsOf_blanks hb]

/-- Between blanks, whatever has the same words. -/
theorem between (hc : isBlank c) (hd : isBlank d) (h : wordsOf a = wordsOf b) :
    SameWords (c :: (a ++ [c])) (d :: (b ++ [d])) := by
  intro before after
  have hparts {e : Char} (he : isBlank e) (x : List Char) :
      wordsOf (before ++ e :: (x ++ [e]) ++ after) =
        wordsOf before ++ (wordsOf x ++ wordsOf after) := by
    rw [List.append_assoc, List.cons_append, wordsOf_append he, List.append_assoc,
      List.singleton_append, wordsOf_append he]
  rw [hparts hc, hparts hd, h]

end SameWords

/-! ## Blanks squeezed together -/

/-- The text with each run of blanks as one space, and none at the end. -/
def squeeze : List Char → List Char
  | [] => []
  | c :: cs =>
    if isBlank c then
      match squeeze cs with
      | [] => []
      | x :: rest => if x = ' ' then x :: rest else ' ' :: x :: rest
    else c :: squeeze cs

theorem ne_space_of_not_blank (h : isBlank c = false) : c ≠ ' ' := by
  rintro rfl
  exact absurd h (by decide)

/-- A squeezed text is its words with one space before each, the first one apart. -/
theorem squeeze_pieces (cs : List Char) : ∃ piece pieces, cutWhere isBlank cs = piece :: pieces ∧
    squeeze cs = piece ++ ((pieces.filter (!·.isEmpty)).map ([' '] ++ ·)).flatten := by
  induction cs with
  | nil => exact ⟨[], [], rfl, rfl⟩
  | cons c cs ih =>
    obtain ⟨piece, pieces, hcut, hsqueeze⟩ := ih
    by_cases hc : isBlank c
    · refine ⟨[], piece :: pieces, by simp [cutWhere, hc, hcut], ?_⟩
      cases piece with
      | nil =>
        cases hwords : pieces.filter (!·.isEmpty) with
        | nil => simp [squeeze, hc, hsqueeze, hwords]
        | cons word words => simp [squeeze, hc, hsqueeze, hwords]
      | cons x piece =>
        have hpiece : x :: piece ∈ cutWhere isBlank cs := by simp [hcut]
        have hx : x ≠ ' ' :=
          ne_space_of_not_blank (not_of_mem_cutWhere hpiece List.mem_cons_self)
        simp [squeeze, hc, hsqueeze, hx]
    · exact ⟨c :: piece, pieces, by simp [cutWhere, hc, hcut], by simp [squeeze, hc, hsqueeze]⟩

/-- A text without the spaces at its beginning. -/
def dropSpaces (cs : List Char) : List Char := cs.dropWhile (· == ' ')

theorem dropSpaces_space (cs : List Char) : dropSpaces (' ' :: cs) = dropSpaces cs := rfl

theorem dropSpaces_of_head (h : ∀ c ∈ cs.head?, c ≠ ' ') : dropSpaces cs = cs := by
  cases cs with
  | nil => rfl
  | cons c cs => exact List.dropWhile_cons_of_neg (by simpa using h c)

theorem dropSpaces_append (hd : d ≠ ' ') (a b : List Char) :
    dropSpaces (a ++ d :: b) = dropSpaces a ++ d :: b := by
  induction a with
  | nil => exact dropSpaces_of_head (by simpa using hd)
  | cons c a ih =>
    by_cases hc : c = ' '
    · rw [hc, List.cons_append, dropSpaces_space, dropSpaces_space, ih]
    · rw [dropSpaces_of_head (by simpa using hc), dropSpaces_of_head (by simpa using hc)]

/-- A squeezed text without the space at its beginning is its words with one space between them. -/
theorem dropSpaces_squeeze (cs : List Char) :
    dropSpaces (squeeze cs) = [' '].intercalate (wordsOf cs) := by
  obtain ⟨piece, pieces, hcut, hsqueeze⟩ := squeeze_pieces cs
  have hhead : ∀ word ∈ wordsOf cs, ∃ c rest, word = c :: rest ∧ c ≠ ' ' := by
    intro word hword
    obtain ⟨hpiece, hne⟩ := List.mem_filter.1 hword
    cases word with
    | nil => cases hne
    | cons c rest =>
      exact ⟨c, rest, rfl, ne_space_of_not_blank (not_of_mem_cutWhere hpiece (by simp))⟩
  rw [hsqueeze]
  rw [wordsOf, hcut] at hhead ⊢
  cases piece with
  | nil =>
    have hskip : ([] :: pieces).filter (!·.isEmpty) = pieces.filter (!·.isEmpty) := rfl
    rw [hskip] at hhead ⊢
    rw [List.nil_append]
    cases hrest : pieces.filter (!·.isEmpty) with
    | nil => rfl
    | cons word words =>
      obtain ⟨c, rest, rfl, hc⟩ := hhead word (by simp [hrest])
      rw [Sql.intercalate_eq, List.map_cons, List.flatten_cons, List.singleton_append,
        List.cons_append, List.cons_append, dropSpaces_space]
      exact dropSpaces_of_head (by simpa using hc)
  | cons x piece =>
    obtain ⟨_, _, ⟨rfl, rfl⟩, hx⟩ := hhead (x :: piece) (by simp)
    rw [List.filter_cons_of_pos (by rfl), Sql.intercalate_eq]
    exact dropSpaces_of_head (by simpa using hx)

theorem toList_collapse (s : String) : (collapse s).toList = dropSpaces (squeeze s.toList) := by
  rw [dropSpaces_squeeze, collapse, String.toList_intercalate, words_eq, List.map_map]
  simp [Function.comp_def]

/-! ## Parts of squeezed texts -/

theorem squeeze_suffix (a b : List Char) : squeeze b <:+ squeeze (a ++ b) := by
  induction a with
  | nil => exact List.suffix_refl _
  | cons c a ih =>
    refine ih.trans ?_
    rw [List.cons_append, squeeze]
    split
    · split
      · simp [*]
      · split
        · simp [*]
        · simp [*]
    · exact List.suffix_cons _ _

theorem prefix_squeeze (a b : List Char) : squeeze a <+: squeeze (a ++ b) := by
  induction a with
  | nil => exact List.nil_prefix
  | cons c a ih =>
    obtain ⟨rest, hrest⟩ := ih
    rw [List.cons_append, squeeze, squeeze, ← hrest]
    by_cases hc : isBlank c
    · simp only [hc, if_true]
      cases squeeze a with
      | nil => exact List.nil_prefix
      | cons x xs =>
        simp only [List.cons_append]
        split <;> simp
    · simp [hc]

theorem infix_squeeze (h : a <:+: b) : squeeze a <:+: squeeze b := by
  obtain ⟨before, after, rfl⟩ := h
  rw [List.append_assoc]
  exact ((prefix_squeeze a after).isInfix).trans (squeeze_suffix before _).isInfix

theorem mem_squeeze (h : c ∈ squeeze cs) : c = ' ' ∨ c ∈ cs := by
  induction cs with
  | nil => cases h
  | cons x cs ih =>
    rw [squeeze] at h
    split at h
    · split at h
      · cases h
      · rename_i y rest heq
        rw [heq] at ih
        split at h
        · exact (ih h).imp_right (List.mem_cons_of_mem _)
        · rcases List.mem_cons.1 h with rfl | h
          · exact .inl rfl
          · exact (ih h).imp_right (List.mem_cons_of_mem _)
    · rcases List.mem_cons.1 h with rfl | h
      · exact .inr List.mem_cons_self
      · exact (ih h).imp_right (List.mem_cons_of_mem _)

/-- A squeezed text ends with no space. -/
theorem getLast?_squeeze (cs : List Char) : (squeeze cs).getLast? ≠ some ' ' := by
  induction cs with
  | nil => simp [squeeze]
  | cons c cs ih =>
    rw [squeeze]
    split
    · split
      · simp
      · rename_i x rest heq
        rw [heq] at ih
        split
        · exact ih
        · rwa [List.getLast?_cons_cons]
    · rename_i hc
      have hc := ne_space_of_not_blank (by simpa using hc)
      cases hsqueeze : squeeze cs with
      | nil => simpa using hc
      | cons x rest =>
        rw [List.getLast?_cons_cons, ← hsqueeze]
        exact ih

/-- What is before a character that is no blank and what is behind it are squeezed each by itself,
but for a space before the character. -/
theorem squeeze_append (hd : isBlank d = false) (a b : List Char) :
    ∃ before, squeeze (a ++ d :: b) = before ++ d :: squeeze b ∧
      (before = squeeze a ∨ before = squeeze a ++ [' ']) := by
  have hne := ne_space_of_not_blank hd
  induction a with
  | nil => exact ⟨[], by simp [squeeze, hd], .inl rfl⟩
  | cons c a ih =>
    obtain ⟨before, hbefore, hspace⟩ := ih
    rw [List.cons_append, squeeze, squeeze, hbefore]
    by_cases hc : isBlank c
    · simp only [hc, if_true]
      cases hsqueeze : squeeze a with
      | nil =>
        rw [hsqueeze] at hspace
        rcases hspace with rfl | rfl
        · exact ⟨[' '], by simp [hne], .inr rfl⟩
        · exact ⟨[' '], by simp, .inr rfl⟩
      | cons x rest =>
        rw [hsqueeze] at hspace
        by_cases hx : x = ' '
        · refine ⟨before, ?_, by simpa [hx] using hspace⟩
          rcases hspace with rfl | rfl <;> simp [hx]
        · refine ⟨' ' :: before, ?_, ?_⟩
          · rcases hspace with rfl | rfl <;> simp [hx]
          · rcases hspace with rfl | rfl <;> simp [hx]
    · refine ⟨c :: before, by simp [hc], ?_⟩
      rcases hspace with rfl | rfl <;> simp [hc]

/-! ## Finding a text in a collapsed one -/

/-- What begins with no space is found in a text as it is found without the spaces before it. -/
theorem infix_dropSpaces {f : Char → Char} (hf : f ' ' = ' ') (hhead : a.head? ≠ some ' ')
    (h : a <:+: cs.map f) : a <:+: (dropSpaces cs).map f := by
  induction cs with
  | nil => exact h
  | cons c cs ih =>
    by_cases hc : c = ' '
    · rw [hc, List.map_cons, List.infix_cons_iff, hf] at h
      rw [hc, dropSpaces_space]
      rcases h with h | h
      · cases a with
        | nil => exact List.nil_infix
        | cons x a => exact absurd (congrArg some (List.cons_prefix_cons.1 h).1) hhead
      · exact ih h
    · rwa [dropSpaces_of_head (by simpa using hc)]

theorem head?_dropSpaces (cs : List Char) : (dropSpaces cs).head? ≠ some ' ' := by
  intro h
  have := List.head?_dropWhile_not (· == ' ') cs
  rw [← dropSpaces, h] at this
  simp at this

theorem dropSpaces_suffix (cs : List Char) : dropSpaces cs <:+ cs := List.dropWhile_suffix _

/-- What lacks a character is found on one side of each occurrence of it. -/
theorem infix_of_not_mem (hd : d ∉ a) (h : a <:+: b ++ d :: b') : a <:+: b ∨ a <:+: b' := by
  rcases List.infix_append_iff.1 h with h | h | ⟨first, last, rfl, hfirst, hlast⟩
  · exact .inl h
  · rcases List.infix_cons_iff.1 h with h | h
    · cases a with
      | nil => exact .inl List.nil_infix
      | cons x a =>
        obtain ⟨rfl, -⟩ := List.cons_prefix_cons.1 h
        exact absurd List.mem_cons_self hd
    · exact .inr h
  · cases last with
    | nil =>
      rw [List.append_nil]
      exact .inl hfirst.isInfix
    | cons x last =>
      obtain ⟨rfl, -⟩ := List.cons_prefix_cons.1 hlast
      exact absurd (List.mem_append_right _ List.mem_cons_self) hd

theorem isPart_iff (part whole : List Char) : isPart part whole = true ↔ part <:+: whole := by
  induction whole with
  | nil => simp [isPart]
  | cons c rest ih =>
    rw [isPart, Bool.or_eq_true, List.isPrefixOf_iff_prefix, ih, List.infix_cons_iff]

/-- Only a small letter is the lower case of another character. -/
theorem eq_of_toLower (hd : d.toNat < 97) (h : c.toLower = d) : c = d := by
  unfold Char.toLower at h
  split at h
  · rename_i hc
    rw [← h] at hd
    have hlow : 65 ≤ c.val.toNat := UInt32.le_iff_toNat_le.1 hc.1
    have hhigh : c.val.toNat ≤ 90 := UInt32.le_iff_toNat_le.1 hc.2
    have hsum : (c.val + ('a'.val - 'A'.val)).toNat = c.val.toNat + 32 := by
      rw [UInt32.toNat_add]
      exact Nat.mod_eq_of_lt (by change c.val.toNat + 32 < 2 ^ 32; omega)
    have : (c.val + ('a'.val - 'A'.val)).toNat < 97 := hd
    omega
  · exact h

/-- A text in lower case with each run of blanks as one space. -/
def plainChars (cs : List Char) : List Char := (dropSpaces (squeeze cs)).map Char.toLower

theorem toList_plainText (s : String) : (Criterion.plainText s).toList = plainChars s.toList := by
  show ((collapse s).map Char.toLower).toList = _
  rw [String.toList_map, toList_collapse]
  rfl

theorem plainChars_congr (h : wordsOf a = wordsOf b) : plainChars a = plainChars b := by
  rw [plainChars, plainChars, dropSpaces_squeeze, dropSpaces_squeeze, h]

theorem infix_plainChars (h : a <:+: b) : plainChars a <:+: plainChars b := by
  refine List.IsInfix.map _ ?_
  have hin : dropSpaces (squeeze a) <:+: squeeze b :=
    (dropSpaces_suffix _).isInfix.trans (infix_squeeze h)
  simpa using infix_dropSpaces (f := fun c => c) rfl (head?_dropSpaces _) (by simpa using hin)

theorem mem_of_mem_plainChars (hlow : d.toNat < 97) (hd : d ≠ ' ') (h : d ∈ plainChars cs) :
    d ∈ cs := by
  obtain ⟨c, hc, hlower⟩ := List.mem_map.1 h
  obtain rfl := eq_of_toLower hlow hlower
  exact (mem_squeeze ((dropSpaces_suffix _).subset hc)).resolve_left hd

theorem head?_plainChars (cs : List Char) : (plainChars cs).head? ≠ some ' ' := by
  intro h
  rw [plainChars, List.head?_map] at h
  obtain ⟨c, hc, hlower⟩ := Option.map_eq_some_iff.1 h
  rw [eq_of_toLower (by decide) hlower] at hc
  exact head?_dropSpaces _ hc

theorem getLast?_plainChars (cs : List Char) : (plainChars cs).getLast? ≠ some ' ' := by
  intro h
  rw [plainChars, List.getLast?_map] at h
  obtain ⟨c, hc, hlower⟩ := Option.map_eq_some_iff.1 h
  rw [eq_of_toLower (by decide) hlower] at hc
  obtain ⟨before, hbefore⟩ := dropSpaces_suffix (squeeze cs)
  refine getLast?_squeeze cs ?_
  rw [← hbefore, List.getLast?_append, hc]
  rfl

/-- What lacks a character that is neither a blank nor a letter is found on one side of each
occurrence of it. -/
theorem plainChars_infix_append (hd : isBlank d = false) (hlower : d.toLower = d)
    (hlacks : d ∉ plainChars cs) (h : plainChars cs <:+: plainChars (a ++ d :: b)) :
    plainChars cs <:+: plainChars a ∨ plainChars cs <:+: plainChars b := by
  obtain ⟨before, hsqueeze, hbefore⟩ := squeeze_append hd a b
  have hparts : plainChars (a ++ d :: b) =
      (dropSpaces before).map Char.toLower ++ d :: (squeeze b).map Char.toLower := by
    rw [plainChars, hsqueeze, dropSpaces_append (ne_space_of_not_blank hd), List.map_append,
      List.map_cons, hlower]
  have hkept {x : List Char} (hx : plainChars cs <:+: x.map Char.toLower) :
      plainChars cs <:+: (dropSpaces x).map Char.toLower :=
    infix_dropSpaces (by decide) (head?_plainChars cs) hx
  rw [hparts] at h
  rcases infix_of_not_mem hlacks h with h | h
  · have h := h.trans ((dropSpaces_suffix before).isInfix.map _)
    rcases hbefore with rfl | rfl
    · exact .inl (hkept h)
    · rw [List.map_append, List.map_singleton, List.infix_concat_iff] at h
      rcases h with ⟨rest, hrest⟩ | h
      · cases hcs : plainChars cs with
        | nil => exact .inl List.nil_infix
        | cons c rest' =>
          refine absurd ?_ (getLast?_plainChars cs)
          have hends := congrArg List.getLast? hrest
          rw [List.getLast?_append, List.getLast?_concat, hcs] at hends
          rw [hcs]
          simpa [List.getLast?_cons] using hends
      · exact .inl (hkept h)
  · exact .inr (hkept h)

end Text

end QueryCanvas
