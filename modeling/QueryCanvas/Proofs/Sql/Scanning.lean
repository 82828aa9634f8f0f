import Mathlib.Data.List.Infix
import QueryCanvas.Parameter

/-!
# Scanning a query text part by part

The scan of a query text goes on behind a part of it from the mode in which the part ends, unless
the part leaves a parameter open or the rest completes a mark that begins in the part.  The marks
are those of comments and parameters, so it is enough that the rest begins with another character.
-/

set_option autoImplicit false

namespace QueryCanvas.Parameter

/-! ## What can follow a part -/

/-- The characters of which the marks of comments and parameters consist. -/
def isMark (c : Char) : Bool := c == '{' || c == '}' || c == '-' || c == '/' || c == '*'

/-- The text is at its end or goes on with a character of no mark. -/
def Follows (r : List Char) : Prop := ∀ c ∈ r.head?, isMark c = false

theorem follows_cons {c : Char} {r : List Char} : Follows (c :: r) ↔ isMark c = false := by
  simp [Follows]

theorem head?_append_mark {c : Char} (hc : isMark c) (u : List Char) {r : List Char}
    (hr : Follows r) : (u ++ r).head? = some c ↔ u.head? = some c := by
  cases u with
  | cons x u => rfl
  | nil =>
    refine iff_of_false (fun h => ?_) (by simp)
    rw [hr c h] at hc
    cases hc

/-! ## Parameters -/

/-- Whether a text begins a parameter that the end of the text leaves open. -/
def isOpen : List Char → Bool
  | '{' :: '{' :: cs =>
    (((cs.dropWhile Text.isBlank).dropWhile isNamePart).dropWhile Text.isBlank).isEmpty
  | _ => false

theorem takeWhile_append_left {p : Char → Bool} {u : List Char} (h : u.dropWhile p ≠ [])
    (r : List Char) : (u ++ r).takeWhile p = u.takeWhile p ∧
      (u ++ r).dropWhile p = u.dropWhile p ++ r := by
  induction u with
  | nil => exact absurd rfl h
  | cons c u ih =>
    by_cases hc : p c
    · simp only [List.dropWhile_cons, hc, if_true] at h
      simp [hc, ih h]
    · simp [hc]

/-- The braces that open a parameter do not stand half in one text and half behind it. -/
theorem braces_of_append {u r cs : List Char} (hne : u ≠ []) (hr : Follows r)
    (h : u ++ r = '{' :: '{' :: cs) : ∃ cs', u = '{' :: '{' :: cs' := by
  obtain ⟨u₁, rfl⟩ : ∃ u₁, u = '{' :: u₁ := by
    cases u with
    | nil => exact absurd rfl hne
    | cons c u₁ => exact ⟨u₁, by rw [(List.cons.inj h).1]⟩
  have hnext : u₁ ++ r = '{' :: cs := (List.cons.inj h).2
  obtain ⟨u₂, rfl⟩ := List.head?_eq_some_iff.1
    ((head?_append_mark (c := '{') rfl u₁ hr).1 (by rw [hnext]; rfl))
  exact ⟨u₂, rfl⟩

/-- What is left behind blanks, a name and blanks. -/
def skip (cs : List Char) : List Char :=
  ((cs.dropWhile Text.isBlank).dropWhile isNamePart).dropWhile Text.isBlank

/-- The name behind blanks, with what is written of a parameter of this name up to its end. -/
def candidate (cs : List Char) : Parameter :=
  let before := cs.takeWhile Text.isBlank
  let name := (cs.dropWhile Text.isBlank).takeWhile isNamePart
  let after := ((cs.dropWhile Text.isBlank).dropWhile isNamePart).takeWhile Text.isBlank
  ⟨'{' :: '{' :: before ++ name ++ after ++ ['}', '}'], name⟩

/-- Between braces a name is read, and the closing braces behind it. -/
theorem body?_eq (cs : List Char) : body? cs =
    match skip cs with
    | '}' :: '}' :: rest =>
      if (candidate cs).name.head?.any isNameStart then some (candidate cs, rest) else none
    | _ => none := rfl

/-- What stands behind the name of a parameter that is not left open. -/
theorem skip_ne_nil {cs : List Char} (hopen : isOpen ('{' :: '{' :: cs) = false) :
    skip cs ≠ [] := by
  simpa [isOpen, skip] using hopen

/-- A text that ends behind what is skipped of it can go on. -/
theorem skip_append {cs : List Char} (h : skip cs ≠ []) (r : List Char) :
    skip (cs ++ r) = skip cs ++ r ∧ candidate (cs ++ r) = candidate cs := by
  have hname : (cs.dropWhile Text.isBlank).dropWhile isNamePart ≠ [] :=
    fun hnil => h (by rw [skip, hnil]; rfl)
  have hbefore : cs.dropWhile Text.isBlank ≠ [] := fun hnil => hname (by rw [hnil]; rfl)
  simp only [skip, candidate, takeWhile_append_left hbefore, takeWhile_append_left hname,
    takeWhile_append_left h, and_self]

theorem isOpen_append {u r : List Char} (hne : u ≠ []) (hopen : isOpen u = false)
    (hr : Follows r) : isOpen (u ++ r) = false := by
  by_cases hbraces : ∃ cs, u = '{' :: '{' :: cs
  · obtain ⟨cs, rfl⟩ := hbraces
    have hskip := skip_ne_nil hopen
    show (skip (cs ++ r)).isEmpty = false
    rw [(skip_append hskip r).1]
    simp [hskip]
  · unfold isOpen
    split
    · exact absurd (braces_of_append hne hr ‹_›) hbraces
    · rfl

theorem body?_append {cs r : List Char} (hopen : isOpen ('{' :: '{' :: cs) = false)
    (hr : Follows r) : body? (cs ++ r) = (body? cs).map fun x => (x.1, x.2 ++ r) := by
  obtain ⟨hskip, hcandidate⟩ := skip_append (skip_ne_nil hopen) r
  rw [body?_eq, body?_eq, hskip, hcandidate]
  generalize skip cs = rest
  by_cases hclose : ∃ rest', rest = '}' :: '}' :: rest'
  · obtain ⟨rest', rfl⟩ := hclose
    simp only [List.cons_append]
    split <;> rfl
  · have hclose' : ∀ rest', rest ++ r ≠ '}' :: '}' :: rest' := by
      intro rest' heq
      obtain ⟨rest₁, rfl⟩ := List.head?_eq_some_iff.1
        ((head?_append_mark (c := '}') rfl rest hr).1 (by rw [heq]; rfl))
      have hnext : rest₁ ++ r = '}' :: rest' := (List.cons.inj heq).2
      obtain ⟨rest₂, rfl⟩ := List.head?_eq_some_iff.1
        ((head?_append_mark (c := '}') rfl rest₁ hr).1 (by rw [hnext]; rfl))
      exact hclose ⟨rest₂, rfl⟩
    split
    · exact absurd ‹_› (hclose' _)
    · split
      · exact absurd ⟨_, rfl⟩ hclose
      · rfl

/-- A parameter is read the same whatever follows a text that leaves none open. -/
theorem at?_append {u r : List Char} (hne : u ≠ []) (hopen : isOpen u = false) (hr : Follows r) :
    at? (u ++ r) = (at? u).map fun x => (x.1, x.2 ++ r) := by
  by_cases hbraces : ∃ cs, u = '{' :: '{' :: cs
  · obtain ⟨cs, rfl⟩ := hbraces
    exact body?_append hopen hr
  · unfold at?
    split
    · exact absurd (braces_of_append hne hr ‹_›) hbraces
    · split
      · exact absurd ⟨_, rfl⟩ hbraces
      · rfl

/-- A character that is not taken ends what is taken. -/
theorem takeWhile_append_cons {p : Char → Bool} {c : Char} (hc : p c = false) (u r : List Char) :
    (u ++ c :: r).takeWhile p = u.takeWhile p ∧
      (u ++ c :: r).dropWhile p = u.dropWhile p ++ c :: r := by
  induction u with
  | nil => simp [hc]
  | cons x u ih =>
    by_cases hx : p x
    · simp [hx, ih]
    · simp [hx]

/-- What is skipped ends before a character that stands in no name and is no blank. -/
theorem skip_append_cons {c : Char} (hblank : Text.isBlank c = false) (hname : isNamePart c = false)
    (cs r : List Char) :
    skip (cs ++ c :: r) = skip cs ++ c :: r ∧ candidate (cs ++ c :: r) = candidate cs := by
  simp only [skip, candidate, takeWhile_append_cons hblank, takeWhile_append_cons hname, and_self]

/-- What is read between braces is taken off the text with the closing braces, whatever follows. -/
theorem body?_eq_some {cs rest : List Char} {p : Parameter} (h : body? cs = some (p, rest)) :
    ∃ front, cs = front ++ '}' :: '}' :: rest ∧
      ∀ r, body? (front ++ '}' :: '}' :: r) = some (p, r) := by
  obtain ⟨front, hfront⟩ : skip cs <:+ cs := ((List.dropWhile_suffix Text.isBlank).trans
    (List.dropWhile_suffix isNamePart)).trans (List.dropWhile_suffix Text.isBlank)
  rw [body?_eq] at h
  split at h
  · rename_i rest' hskip
    split at h
    · rename_i hname
      obtain ⟨rfl, rfl⟩ := Prod.mk.inj (Option.some.inj h)
      rw [hskip] at hfront
      subst hfront
      have hcut := fun r => skip_append_cons (c := '}') (by decide) (by decide) front ('}' :: r)
      -- what is skipped of the text is all that stands before the braces
      have hnil : skip front = [] := by
        rw [(hcut rest').1] at hskip
        exact List.append_left_eq_self.1 hskip
      refine ⟨front, rfl, fun r => ?_⟩
      rw [(hcut rest').2] at hname
      rw [body?_eq, (hcut r).1, (hcut r).2, hnil, (hcut rest').2]
      exact if_pos hname
    · cases h
  · cases h

/-- A parameter at the beginning of a text is taken off it, whatever follows. -/
theorem at?_eq_some {cs rest : List Char} {p : Parameter} (h : at? cs = some (p, rest)) :
    ∃ front, cs = front ++ '}' :: '}' :: rest ∧
      ∀ r, at? (front ++ '}' :: '}' :: r) = some (p, r) := by
  unfold at? at h
  split at h
  · obtain ⟨front, rfl, hread⟩ := body?_eq_some h
    exact ⟨'{' :: '{' :: front, rfl, hread⟩
  · cases h

/-! ## Modes -/

theorem scan_parameter {c : Char} {cs rest : List Char} {p : Parameter}
    (h : at? (c :: cs) = some (p, rest)) :
    scan .code (c :: cs) = (.parameter p :: (scan .code rest).1, (scan .code rest).2) := by
  obtain rfl : c = '{' := by
    unfold at? at h
    split at h
    · rename_i heq
      exact (List.cons.inj heq).1
    · cases h
  rw [scan]
  · split
    · rename_i heq
      rw [h] at heq
      cases heq
      rfl
    · rename_i heq
      rw [h] at heq
      cases heq
  all_goals simp

theorem scan_code_plain {c : Char} {cs : List Char} (hdash : c = '-' → cs.head? ≠ some '-')
    (hslash : c = '/' → cs.head? ≠ some '*') (hat : at? (c :: cs) = none) :
    scan .code (c :: cs) = (.plain c :: (scan (if isQuote c then .quoted c else .code) cs).1,
      (scan (if isQuote c then .quoted c else .code) cs).2) := by
  rw [scan]
  · split
    · rename_i heq
      rw [hat] at heq
      cases heq
    · rfl
  · rintro cs' rfl rfl
    exact hdash rfl rfl
  · rintro cs' rfl rfl
    exact hslash rfl rfl

theorem scan_block_plain {c : Char} {cs : List Char} (h : c = '*' → cs.head? ≠ some '/') :
    scan .blockComment (c :: cs)
      = (.plain c :: (scan .blockComment cs).1, (scan .blockComment cs).2) := by
  rw [scan]
  rintro cs' rfl rfl
  exact h rfl rfl

/-- The parameters of a text are not read otherwise where another text follows. -/
def ReadsOn (m : Mode) (u r : List Char) : Prop :=
  ∀ before s, before ++ s = u → s ≠ [] → (scan m before).2 = .code →
    at? (s ++ r) = (at? s).map fun x => (x.1, x.2 ++ r)

/-- After the first step of a scan the rest is read on from the mode that this leads to. -/
theorem ReadsOn.step {m m' : Mode} {u cs r : List Char} (h : ReadsOn m (u ++ cs) r)
    (hstep : ∀ before s, before ++ s = cs → (scan m (u ++ before)).2 = (scan m' before).2) :
    ReadsOn m' cs r := by
  intro before s hs hne hcode
  refine h (u ++ before) s (by rw [List.append_assoc, hs]) hne ?_
  rw [hstep before s hs, hcode]

theorem ReadsOn.first {c : Char} {cs r : List Char} (h : ReadsOn .code (c :: cs) r) :
    at? (c :: cs ++ r) = (at? (c :: cs)).map fun x => (x.1, x.2 ++ r) :=
  h [] (c :: cs) rfl (by simp) (by rw [scan])

/-- The scan of a text goes on from the mode in which the text ends, if its parameters are read as
they are and what follows completes no mark of a comment. -/
theorem scan_append_of_readsOn {m : Mode} {u r : List Char} (hat : ReadsOn m u r)
    (hr : ∀ c ∈ r.head?, c ≠ '-' ∧ c ≠ '/' ∧ c ≠ '*') :
    scan m (u ++ r) = ((scan m u).1 ++ (scan (scan m u).2 r).1, (scan (scan m u).2 r).2) := by
  have hhead : ∀ {c : Char} {cs : List Char}, c = '-' ∨ c = '/' ∨ c = '*' →
      (∀ cs', cs ≠ c :: cs') → (cs ++ r).head? ≠ some c := by
    intro c cs hc hne heq
    cases cs with
    | nil =>
      obtain ⟨h₁, h₂, h₃⟩ := hr c heq
      rcases hc with hc | hc | hc
      · exact h₁ hc
      · exact h₂ hc
      · exact h₃ hc
    | cons x cs => exact hne cs (by rw [← Option.some.inj heq])
  have hsub : ∀ {c : Char} {before s cs : List Char}, before ++ s = cs →
      (∀ cs', cs ≠ c :: cs') → before.head? ≠ some c := by
    intro c before s cs hs hne heq
    obtain ⟨cs', rfl⟩ := List.head?_eq_some_iff.1 heq
    exact hne (cs' ++ s) hs.symm
  fun_induction scan m u with
  | case1 mode => simp
  | case2 cs ps last hscan ih =>
    rw [hscan] at ih
    simp only [List.cons_append, scan, ih (hat.step (u := ['-', '-']) (by simp [scan]))]
  | case3 cs ps last hscan ih =>
    rw [hscan] at ih
    simp only [List.cons_append, scan, ih (hat.step (u := ['/', '*']) (by simp [scan]))]
  | case4 c cs hdash hslash p rest hread ps last hscan ih =>
    rw [hscan] at ih
    obtain ⟨front, hfront, hwhatever⟩ := at?_eq_some hread
    have hrest := ih (ReadsOn.step (u := front ++ ['}', '}']) (by simpa [hfront] using hat) ?_)
    · have hread' : at? (c :: (cs ++ r)) = some (p, rest ++ r) := by
        rw [← List.cons_append, hat.first, hread]
        rfl
      rw [List.cons_append, scan_parameter hread', hrest]
      rfl
    · intro before s _
      have hbefore : at? (front ++ ['}', '}'] ++ before) = some (p, before) := by
        rw [List.append_assoc]
        exact hwhatever before
      obtain ⟨x, xs, hcons⟩ := List.exists_cons_of_ne_nil
        (by simp : front ++ ['}', '}'] ++ before ≠ [])
      rw [hcons] at hbefore ⊢
      rw [scan_parameter hbefore]
  | case5 c cs hdash hslash hread ps last hscan ih =>
    have hrest := ih (hat.step (u := [c]) fun before s hs => ?_)
    · rw [hscan] at hrest
      have hread' : at? (c :: (cs ++ r)) = none := by
        rw [← List.cons_append, hat.first, hread]
        rfl
      rw [List.cons_append, scan_code_plain (fun hc => hhead (.inl rfl) fun cs' => hdash cs' hc)
        (fun hc => hhead (.inr (.inr rfl)) fun cs' => hslash cs' hc) hread']
      simp only [dite_eq_ite] at hrest
      rw [hrest]
      rfl
    · have hnone : at? (c :: before) = none := by
        cases hbefore : at? (c :: before) with
        | none => rfl
        | some x =>
          obtain ⟨front, hfront, hwhatever⟩ := at?_eq_some hbefore
          have hcons : c :: cs = front ++ '}' :: '}' :: (x.2 ++ s) := by
            rw [← hs, ← List.cons_append, hfront]
            simp
          rw [hcons, hwhatever] at hread
          cases hread
      rw [List.singleton_append, scan_code_plain (fun hc => hsub hs fun cs' => hdash cs' hc)
        (fun hc => hsub hs fun cs' => hslash cs' hc) hnone, dite_eq_ite]
  | case6 mark c cs ps last hscan ih =>
    rw [hscan] at ih
    simp only [dite_eq_ite] at ih
    simp only [List.cons_append, scan, ih (hat.step (u := [c]) (by simp [scan]))]
  | case7 c cs ps last hscan ih =>
    rw [hscan] at ih
    simp only [dite_eq_ite] at ih
    simp only [List.cons_append, scan, ih (hat.step (u := [c]) (by simp [scan]))]
  | case8 cs ps last hscan ih =>
    rw [hscan] at ih
    simp only [List.cons_append, scan, ih (hat.step (u := ['*', '/']) (by simp [scan]))]
  | case9 c cs hne ps last hscan ih =>
    have hrest := ih (hat.step (u := [c]) fun before s hs => ?_)
    · rw [hscan] at hrest
      rw [List.cons_append,
        scan_block_plain (fun hc => hhead (.inr (.inl rfl)) fun cs' => hne cs' hc), hrest]
      rfl
    · rw [List.singleton_append, scan_block_plain fun hc => hsub hs fun cs' => hne cs' hc]

/-- The scan of a text that leaves no parameter open goes on from the mode it ends in. -/
theorem scan_append (m : Mode) {u r : List Char} (hopen : ∀ s, s <:+ u → isOpen s = false)
    (hr : Follows r) :
    scan m (u ++ r) = ((scan m u).1 ++ (scan (scan m u).2 r).1, (scan (scan m u).2 r).2) := by
  refine scan_append_of_readsOn (fun before s hs hne _ => ?_) fun c hc => ?_
  · exact at?_append hne (hopen s ⟨before, hs⟩) hr
  · have hmark := hr c hc
    simp only [isMark, Bool.or_eq_false_iff, beq_eq_false_iff_ne] at hmark
    exact ⟨hmark.1.1.2, hmark.1.2, hmark.2⟩

end QueryCanvas.Parameter
