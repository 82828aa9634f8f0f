import QueryCanvas.Proofs.Sql.Parameters
import QueryCanvas.Proofs.Sql.Qualifier

/-!
# Names and values between any texts

A value is written so that whatever stands before it, as long as that ends outside of quotes and
comments, and whatever stands behind it is scanned as if the value were not there.  So are names,
but for one case: braces that are opened before a name and closed behind it make a parameter of it,
if the name is written without quotes.
-/

set_option autoImplicit false

namespace QueryCanvas.Parameter

open Sql (dropWhile_of_head)

/-! ## Braces around a text -/

/-- The text ends with the braces that open a parameter and blanks, and the braces stand outside of
quotes and comments. -/
def endsOpen (cs : List Char) : Bool :=
  match cs.reverse.dropWhile Text.isBlank with
  | '{' :: '{' :: before => (scan .code before.reverse).2 = .code
  | _ => false

/-- The text begins with blanks and the braces that close a parameter. -/
def closesFirst (cs : List Char) : Bool :=
  match cs.dropWhile Text.isBlank with
  | '}' :: '}' :: _ => true
  | _ => false

theorem endsOpen_iff {cs : List Char} : endsOpen cs ↔ ∃ before blanks,
    cs = before ++ '{' :: '{' :: blanks ∧ (∀ c ∈ blanks, Text.isBlank c) ∧
      (scan .code before).2 = .code := by
  constructor
  · intro h
    unfold endsOpen at h
    split at h
    · rename_i before hdrop
      refine ⟨before.reverse, (cs.reverse.takeWhile Text.isBlank).reverse, ?_,
        fun c hc => List.mem_takeWhile_imp (List.mem_reverse.1 hc), of_decide_eq_true h⟩
      have hsplit := List.takeWhile_append_dropWhile (p := Text.isBlank) (l := cs.reverse)
      rw [hdrop] at hsplit
      simpa using (congrArg List.reverse hsplit).symm
    · cases h
  · rintro ⟨before, blanks, rfl, hblanks, hcode⟩
    have hdrop : (before ++ '{' :: '{' :: blanks).reverse.dropWhile Text.isBlank =
        '{' :: '{' :: before.reverse := by
      rw [List.reverse_append, List.reverse_cons, List.reverse_cons, List.append_assoc,
        List.append_assoc,
        List.dropWhile_append_of_pos fun c hc => hblanks c (List.mem_reverse.1 hc)]
      rfl
    unfold endsOpen
    rw [hdrop]
    simpa using hcode

theorem closesFirst_iff {cs : List Char} : closesFirst cs ↔ ∃ blanks rest,
    cs = blanks ++ '}' :: '}' :: rest ∧ ∀ c ∈ blanks, Text.isBlank c := by
  constructor
  · intro h
    unfold closesFirst at h
    split at h
    · rename_i rest hdrop
      refine ⟨cs.takeWhile Text.isBlank, rest, ?_, fun c hc => List.mem_takeWhile_imp hc⟩
      rw [← hdrop, List.takeWhile_append_dropWhile]
    · cases h
  · rintro ⟨blanks, rest, rfl, hblanks⟩
    unfold closesFirst
    rw [List.dropWhile_append_of_pos hblanks]
    rfl

/-! ## What is read across the end of a text -/

theorem at?_of_isOpen {cs : List Char} (h : isOpen cs) : at? cs = none := by
  unfold isOpen at h
  split at h
  · rename_i cs
    have hskip : skip cs = [] := List.isEmpty_iff.1 h
    rw [at?, body?_eq, hskip]
  · cases h

/-- What is read as a parameter is what is written of it. -/
theorem at?_written {cs rest : List Char} {p : Parameter} (h : at? cs = some (p, rest)) :
    cs = p.written ++ rest := by
  unfold at? at h
  split at h
  · rename_i cs
    have hsplit : cs.takeWhile Text.isBlank ++ ((cs.dropWhile Text.isBlank).takeWhile isNamePart ++
        (((cs.dropWhile Text.isBlank).dropWhile isNamePart).takeWhile Text.isBlank ++ skip cs)) =
          cs := by
      rw [skip, List.takeWhile_append_dropWhile, List.takeWhile_append_dropWhile,
        List.takeWhile_append_dropWhile]
    rw [body?_eq] at h
    split at h
    · rename_i rest' hskip
      split at h
      · obtain ⟨rfl, rfl⟩ := Prod.mk.inj (Option.some.inj h)
        rw [hskip] at hsplit
        conv_lhs => rw [← hsplit]
        simp [candidate]
      · cases h
    · cases h
  · cases h

/-- Something is read between braces if it is a name, and the closing braces stand behind it. -/
theorem isSome_body? (cs : List Char) : (body? cs).isSome =
    (closesFirst ((cs.dropWhile Text.isBlank).dropWhile isNamePart) &&
      ((cs.dropWhile Text.isBlank).takeWhile isNamePart).head?.any isNameStart) := by
  change _ = ((match skip cs with | '}' :: '}' :: _ => true | _ => false) &&
    (candidate cs).name.head?.any isNameStart)
  rw [body?_eq]
  generalize skip cs = rest
  split
  · cases (candidate cs).name.head?.any isNameStart with
    | true => rfl
    | false => rfl
  · rename_i hnot
    simp

/-- What does not begin like a name is no name of a parameter. -/
theorem body?_eq_none {cs : List Char} (hhead : ∀ c ∈ cs.head?, Text.isBlank c = false)
    (hstart : ∀ c ∈ cs.head?, isNameStart c = false) : body? cs = none := by
  have hname : (cs.takeWhile isNamePart).head?.any isNameStart = false := by
    cases cs with
    | nil => rfl
    | cons c cs =>
      rw [List.takeWhile_cons]
      split
      · exact hstart c rfl
      · rfl
  rw [← Option.not_isSome_iff_eq_none, isSome_body?, dropWhile_of_head hhead, hname, Bool.and_false]
  exact Bool.false_ne_true

/-- Behind blanks a name is read as without them. -/
theorem isSome_body?_blanks {blanks : List Char} (hblanks : ∀ c ∈ blanks, Text.isBlank c)
    (cs : List Char) : (body? (blanks ++ cs)).isSome = (body? cs).isSome := by
  rw [isSome_body?, isSome_body?, List.dropWhile_append_of_pos hblanks]

/-- No parameter goes beyond the end of a text and a blank into a text that does not go on with the
braces that close it. -/
theorem at?_open {s t : List Char} (hopen : isOpen s)
    (hhead : ∀ c ∈ t.head?, Text.isBlank c = false ∧ c ≠ '}')
    (hbody : (∃ blanks, s = '{' :: '{' :: blanks ∧ ∀ c ∈ blanks, Text.isBlank c) →
      body? t = none) : at? (s ++ ' ' :: t) = none := by
  unfold isOpen at hopen
  split at hopen
  · rename_i cs
    by_cases hblanks : cs.dropWhile Text.isBlank = []
    · have hall : ∀ c ∈ cs ++ [' '], Text.isBlank c := by
        intro c hc
        rcases List.mem_append.1 hc with hc | hc
        · exact List.dropWhile_eq_nil_iff.1 hblanks c hc
        · rw [List.mem_singleton.1 hc]
          rfl
      have hnone := hbody ⟨cs, rfl, List.dropWhile_eq_nil_iff.1 hblanks⟩
      have hbehind := isSome_body?_blanks hall t
      rw [hnone, List.append_assoc] at hbehind
      exact Option.isNone_iff_eq_none.1 (Option.isSome_eq_false_iff.1 hbehind)
    · -- a name was read: behind it and a blank its closing braces would have to stand
      have hname : (cs ++ ' ' :: t).dropWhile Text.isBlank
          = cs.dropWhile Text.isBlank ++ ' ' :: t :=
        (takeWhile_append_left hblanks _).2
      have hskip : skip (cs ++ ' ' :: t) = t := by
        rw [skip, hname, (takeWhile_append_cons (by decide) _ _).2, List.dropWhile_append_of_pos
          (List.dropWhile_eq_nil_iff.1 (List.isEmpty_iff.1 hopen)), List.dropWhile_cons_of_pos rfl,
          dropWhile_of_head fun c hc => (hhead c hc).1]
      show body? (cs ++ ' ' :: t) = none
      rw [body?_eq, hskip]
      split
      · exact absurd rfl (hhead '}' rfl).2
      · rfl
  · cases hopen

/-! ## Scans -/

/-- The parameters among the pieces of a scanned text. -/
def parametersOf (ps : List Piece) : List Parameter :=
  ps.filterMap fun
    | .parameter p => some p
    | .plain _ => none

theorem occurrences_eq (s : String) : occurrences s = parametersOf (scan .code s.toList).1 := rfl

theorem parametersOf_append (ps ps' : List Piece) :
    parametersOf (ps ++ ps') = parametersOf ps ++ parametersOf ps' := List.filterMap_append

/-- The characters that open nothing. -/
def opensNothing (c : Char) : Bool := !isQuote c && c != '{' && c != '-' && c != '/'

theorem opensNothing_of_isBlank {c : Char} (h : Text.isBlank c) : opensNothing c := by
  by_contra hnot
  simp only [opensNothing, isQuote, Bool.and_eq_true, Bool.not_eq_true', Bool.or_eq_false_iff,
    beq_eq_false_iff_ne, bne_iff_ne, not_and_or, not_not] at hnot
  revert h
  rcases hnot with (((((rfl | rfl) | rfl) | rfl) | rfl) | rfl)
  all_goals decide

/-- What opens nothing is skipped. -/
theorem scan_calm {u : List Char} (hu : ∀ c ∈ u, opensNothing c) (r : List Char) :
    scan .code (u ++ r) = (u.map .plain ++ (scan .code r).1, (scan .code r).2) := by
  induction u with
  | nil => rfl
  | cons c u ih =>
    obtain ⟨hc, hu⟩ := List.forall_mem_cons.1 hu
    simp only [opensNothing, Bool.and_eq_true, Bool.not_eq_true', bne_iff_ne] at hc
    obtain ⟨⟨⟨hquote, hbrace⟩, hdash⟩, hslash⟩ := hc
    have hat : at? (c :: (u ++ r)) = none := by
      unfold at?
      split
      · rename_i heq
        exact absurd (List.cons.inj heq).1 hbrace
      · rfl
    rw [List.cons_append, scan_code_plain (absurd · hdash) (absurd · hslash) hat, hquote]
    simp only [Bool.false_eq_true, if_false, ih hu]
    rfl

theorem parametersOf_plain (u : List Char) : parametersOf (u.map .plain) = [] := by
  induction u with
  | nil => rfl
  | cons c u ih => exact ih

/-- A text after which the scan goes on as before has the same effect as nothing. -/
theorem parametersOf_scan_calm {u : List Char} (hu : ∀ c ∈ u, opensNothing c) (r : List Char) :
    parametersOf (scan .code (u ++ r)).1 = parametersOf (scan .code r).1 ∧
      (scan .code (u ++ r)).2 = (scan .code r).2 := by
  rw [scan_calm hu, parametersOf_append, parametersOf_plain]
  exact ⟨rfl, rfl⟩

/-- A complete text between blanks, before which a text ends outside of quotes and comments, is
scanned by itself, if it does not go on with a parameter that is opened before it. -/
theorem scan_between {p x q : List Char} (hp : (scan .code p).2 = .code)
    (hx : Complete (String.ofList x)) (hhead : ∀ c ∈ x.head?, Text.isBlank c = false ∧ c ≠ '}')
    (hne : x ≠ []) (hbody : endsOpen p → body? (x ++ ' ' :: q) = none) :
    parametersOf (scan .code (p ++ ' ' :: (x ++ ' ' :: q))).1 =
        parametersOf (scan .code p).1 ++ parametersOf (scan .code x).1 ++
          parametersOf (scan .code q).1 ∧
      (scan .code (p ++ ' ' :: (x ++ ' ' :: q))).2 = (scan .code q).2 := by
  have hspace : ∀ c ∈ [' '], opensNothing c := List.forall_mem_singleton.2 (by decide)
  have hfollows : ∀ r, Follows (' ' :: r) := fun r => follows_cons.2 rfl
  have hhead' : ∀ c ∈ (x ++ ' ' :: q).head?, Text.isBlank c = false ∧ c ≠ '}' := by
    rwa [List.head?_append_of_ne_nil _ hne]
  -- of the first text only a parameter that is open at its end could be read on into the rest
  have hreads : ReadsOn .code p (' ' :: (x ++ ' ' :: q)) := by
    intro before s hs hnil hcode
    cases hopen : isOpen s with
    | false => exact at?_append hnil hopen (hfollows _)
    | true =>
      rw [at?_of_isOpen hopen, at?_open hopen hhead' fun hblanks => hbody ?_]
      · rfl
      · obtain ⟨blanks, rfl, hblanks⟩ := hblanks
        exact endsOpen_iff.2 ⟨before, blanks, hs.symm, hblanks, hcode⟩
  -- the middle text leaves nothing open, neither a parameter nor quotes nor a comment
  have hbehind : scan .code (x ++ ' ' :: q) = _ := scan_append .code
    (fun s hs => hx.closed s ((List.mem_tails _ _).2 (by rwa [String.toList_ofList]))) (hfollows q)
  have hends : (scan .code x).2 = .code := by
    have := hx.ends_in_code
    rwa [String.toList_ofList] at this
  rw [hends] at hbehind
  rw [scan_append_of_readsOn hreads (by simp), hp]
  dsimp only
  obtain ⟨hplain, hmode⟩ := parametersOf_scan_calm hspace (x ++ ' ' :: q)
  obtain ⟨hplain', hmode'⟩ := parametersOf_scan_calm hspace q
  rw [List.singleton_append] at hplain hmode hplain' hmode'
  rw [parametersOf_append, hplain, hmode, hbehind, parametersOf_append, hplain']
  exact ⟨(List.append_assoc ..).symm, hmode'⟩

/-! ## Names between braces -/

/-- An opening brace ends what is read of a text before it. -/
theorem body?_append_brace (cs r : List Char) :
    body? (cs ++ '{' :: r) = (body? cs).map fun x => (x.1, x.2 ++ '{' :: r) := by
  obtain ⟨hskip, hcandidate⟩ := skip_append_cons (c := '{') (by decide) (by decide) cs r
  rw [body?_eq, body?_eq, hskip, hcandidate]
  match skip cs with
  | [] => simp
  | [x] => simp
  | x :: y :: rest =>
    by_cases hbraces : x = '}' ∧ y = '}'
    · obtain ⟨rfl, rfl⟩ := hbraces
      simp only [List.cons_append]
      split <;> rfl
    · simp only [List.cons_append]
      split
      · rename_i heq
        simp only [List.cons.injEq] at heq
        exact absurd ⟨heq.1, heq.2.1⟩ hbraces
      · split
        · rename_i heq
          simp only [List.cons.injEq] at heq
          exact absurd ⟨heq.1, heq.2.1⟩ hbraces
        · rfl

theorem readsOn_braces (m : Mode) (u r : List Char) : ReadsOn m u ('{' :: '{' :: r) := by
  rintro before s rfl hne -
  have hbrace : body? ('{' :: r) = none := body?_eq_none (by simp; decide) (by simp; decide)
  match s with
  | [] => exact absurd rfl hne
  | [c] =>
    by_cases hc : c = '{'
    · rw [hc]
      exact hbrace
    · rw [at?, at?]
      · rfl
      · rintro cs heq
        simp at heq
      · rintro cs heq
        exact hc (List.cons.inj heq).1
  | c :: c' :: cs =>
    by_cases hc : c = '{' ∧ c' = '{'
    · obtain ⟨rfl, rfl⟩ := hc
      exact body?_append_brace cs ('{' :: r)
    · rw [at?, at?]
      · rfl
      · rintro cs heq
        simp only [List.cons.injEq] at heq
        exact hc ⟨heq.1, heq.2.1⟩
      · rintro cs heq
        simp only [List.cons_append, List.cons.injEq] at heq
        exact hc ⟨heq.1, heq.2.1⟩

/-- What is taken of a text goes up to a character that is not taken. -/
theorem span_append {p : Char → Bool} {u r : List Char} (hu : ∀ c ∈ u, p c)
    (hr : ∀ c ∈ r.head?, p c = false) :
    (u ++ r).takeWhile p = u ∧ (u ++ r).dropWhile p = r := by
  rw [List.takeWhile_append_of_pos hu, List.dropWhile_append_of_pos hu, dropWhile_of_head hr]
  cases r with
  | nil => simp
  | cons c r => simp [hr c rfl]

/-- A name with blanks around it is read up to the closing braces. -/
theorem body?_name {name before after : List Char} (hstart : name.head?.any isNameStart)
    (hname : ∀ c ∈ name, isNamePart c) (hbefore : ∀ c ∈ before, Text.isBlank c)
    (hafter : ∀ c ∈ after, Text.isBlank c) (hne : after ≠ []) (rest : List Char) :
    body? (before ++ (name ++ (after ++ '}' :: '}' :: rest))) =
      some (⟨'{' :: '{' :: before ++ name ++ after ++ ['}', '}'], name⟩, rest) := by
  have hhead : ∀ c ∈ (name ++ (after ++ '}' :: '}' :: rest)).head?, Text.isBlank c = false := by
    cases name with
    | nil => cases hstart
    | cons c name =>
      rintro _ ⟨⟩
      exact Sql.isBlank_of_isNamePart (hname c List.mem_cons_self)
  have hhead' : ∀ c ∈ (after ++ '}' :: '}' :: rest).head?, isNamePart c = false := by
    cases after with
    | nil => exact absurd rfl hne
    | cons c after =>
      rintro _ ⟨⟩
      by_contra hpart
      have := Sql.isBlank_of_isNamePart (Bool.not_eq_false _ ▸ hpart)
      rw [hafter c List.mem_cons_self] at this
      cases this
  have hclose : ∀ c ∈ ('}' :: '}' :: rest).head?, Text.isBlank c = false := by
    rintro _ ⟨⟩
    decide
  obtain ⟨hbefore, hbehind⟩ := span_append hbefore hhead
  obtain ⟨hname, hbehind'⟩ := span_append hname hhead'
  obtain ⟨hafter, hbehind''⟩ := span_append hafter hclose
  rw [body?_eq, skip, candidate, hbefore, hbehind, hname, hbehind', hafter, hbehind'']
  exact if_pos hstart

/-- The scan of a text goes on where braces are opened behind it. -/
theorem parametersOf_scan_braces {before : List Char} (hcode : (scan .code before).2 = .code)
    (r : List Char) :
    parametersOf (scan .code (before ++ '{' :: '{' :: r)).1 =
        parametersOf (scan .code before).1 ++ parametersOf (scan .code ('{' :: '{' :: r)).1 ∧
      (scan .code (before ++ '{' :: '{' :: r)).2 = (scan .code ('{' :: '{' :: r)).2 := by
  rw [scan_append_of_readsOn (readsOn_braces _ _ _) (by simp), hcode, parametersOf_append]
  exact ⟨rfl, rfl⟩

/-- Braces behind which the text ends open nothing. -/
theorem parametersOf_scan_open {blanks : List Char} (hblanks : ∀ c ∈ blanks, Text.isBlank c) :
    parametersOf (scan .code ('{' :: '{' :: blanks)).1 = [] := by
  have hopen : isOpen ('{' :: '{' :: blanks) := by
    rw [isOpen, List.dropWhile_eq_nil_iff.2 hblanks]
    rfl
  have hone : at? ('{' :: blanks) = none := by
    unfold at?
    split
    · rename_i heq
      have hblank := hblanks '{' (by rw [(List.cons.inj heq).2]; exact List.mem_cons_self)
      exact absurd hblank (by decide)
    · rfl
  have hcalm := scan_calm (fun c hc => opensNothing_of_isBlank (hblanks c hc)) []
  rw [List.append_nil] at hcalm
  rw [scan_code_plain (c := '{') (by simp) (by simp) (at?_of_isOpen hopen), if_neg (by decide),
    scan_code_plain (c := '{') (by simp) (by simp) hone, if_neg (by decide), hcalm]
  show parametersOf (blanks.map Piece.plain ++ (scan .code []).1) = []
  rw [scan, List.append_nil, parametersOf_plain]

/-- The parameter that braces around a name make, with the blanks that stand beside them, if a text
leaves braces open before the name and another one closes them behind it. -/
def captured (p name q : String) : List Parameter :=
  if endsOpen p.toList && Sql.isPlainName name && closesFirst q.toList then
    [⟨'{' :: '{' :: ((p.toList.reverse.takeWhile Text.isBlank).reverse ++ [' ']) ++ name.toList ++
        (' ' :: q.toList.takeWhile Text.isBlank) ++ ['}', '}'], name.toList⟩]
  else []

/-- Braces around a plain name make a parameter of it. -/
theorem scan_captured {p name q : String} (hopen : endsOpen p.toList)
    (hname : Sql.isPlainName name) (hclose : closesFirst q.toList) :
    parametersOf (scan .code (p.toList ++ ' ' :: (name.toList ++ ' ' :: q.toList))).1 =
        parametersOf (scan .code p.toList).1 ++ captured p name q ++
          parametersOf (scan .code q.toList).1 ∧
      (scan .code (p.toList ++ ' ' :: (name.toList ++ ' ' :: q.toList))).2 =
        (scan .code q.toList).2 := by
  have hcaptured : captured p name q = [⟨'{' :: '{' ::
      ((p.toList.reverse.takeWhile Text.isBlank).reverse ++ [' ']) ++ name.toList ++
        (' ' :: q.toList.takeWhile Text.isBlank) ++ ['}', '}'], name.toList⟩] := by
    rw [captured, hopen, hname, hclose]
    rfl
  obtain ⟨before, blanks, hp, hblanks, hcode⟩ := endsOpen_iff.1 hopen
  obtain ⟨blanks', rest, hq, hblanks'⟩ := closesFirst_iff.1 hclose
  have hends : (p.toList.reverse.takeWhile Text.isBlank).reverse = blanks := by
    have hreverse : p.toList.reverse = blanks.reverse ++ '{' :: '{' :: before.reverse := by
      simp [hp]
    rw [hreverse, (span_append (fun c hc => hblanks c (List.mem_reverse.1 hc)) ?_).1,
      List.reverse_reverse]
    rintro _ ⟨⟩
    decide
  have hbegins : q.toList.takeWhile Text.isBlank = blanks' := by
    rw [hq, (span_append hblanks' ?_).1]
    rintro _ ⟨⟩
    decide
  simp only [Sql.isPlainName, Bool.and_eq_true, List.all_eq_true] at hname
  have hblank : Text.isBlank ' ' := by decide
  -- what is read from the opening braces on
  have hread : at? ('{' :: '{' :: (blanks ++ ' ' :: (name.toList ++ ' ' :: q.toList))) =
      some (⟨'{' :: '{' :: (blanks ++ [' ']) ++ name.toList ++ (' ' :: blanks') ++ ['}', '}'],
        name.toList⟩, rest) := by
    have hbefore : ∀ c ∈ blanks ++ [' '], Text.isBlank c := by
      simpa [or_imp, forall_and, hblank] using hblanks
    have hafter : ∀ c ∈ ' ' :: blanks', Text.isBlank c :=
      List.forall_mem_cons.2 ⟨hblank, hblanks'⟩
    have hbody := body?_name hname.1 hname.2 hbefore hafter (by simp) rest
    rw [hq]
    show body? _ = _
    simpa using hbody
  obtain ⟨hall, hmode⟩ := parametersOf_scan_braces hcode
    (blanks ++ ' ' :: (name.toList ++ ' ' :: q.toList))
  have hclosing : ∀ c ∈ blanks' ++ ['}', '}'], opensNothing c := by
    intro c hc
    rcases List.mem_append.1 hc with hc | hc
    · exact opensNothing_of_isBlank (hblanks' c hc)
    · have hbraces : ∀ c ∈ ['}', '}'], opensNothing c := List.all_eq_true.1 (by decide)
      exact hbraces c hc
  have hrest := parametersOf_scan_calm hclosing rest
  rw [List.append_assoc, show ['}', '}'] ++ rest = '}' :: '}' :: rest from rfl, ← hq] at hrest
  rw [scan_parameter hread] at hall hmode
  have hwhole : p.toList ++ ' ' :: (name.toList ++ ' ' :: q.toList) =
      before ++ '{' :: '{' :: (blanks ++ ' ' :: (name.toList ++ ' ' :: q.toList)) := by
    simp [hp]
  rw [hwhole, hall, hmode, hcaptured, hends, hbegins, hrest.1, hrest.2]
  rw [show parametersOf (scan .code p.toList).1 = parametersOf (scan .code before).1 by
    rw [hp, (parametersOf_scan_braces hcode blanks).1, parametersOf_scan_open hblanks,
      List.append_nil]]
  exact ⟨by simp [parametersOf], rfl⟩

end QueryCanvas.Parameter

namespace QueryCanvas.Sql

open Parameter

/-! ## Names -/

theorem head_quoteName {name : String} :
    ∀ c ∈ (quoteName name).toList.head?, Text.isBlank c = false ∧ c ≠ '}' := by
  intro c hc
  refine ⟨(quoteName_ends name).2.1 c hc, ?_⟩
  rintro rfl
  unfold quoteName at hc
  split at hc
  · rename_i hplain
    exact not_mem_of_isPlainName hplain (by decide) (List.mem_of_mem_head? hc)
  · rw [toList_quoted] at hc
    cases hc

/-- Opening braces before a name read a parameter at most if the name is plain and closing braces
follow. -/
theorem body?_quoteName {name : String} {r : List Char}
    (hr : ∀ c ∈ r.head?, isNamePart c = false) (h : isPlainName name → closesFirst r = false) :
    body? ((quoteName name).toList ++ r) = none := by
  have hhead : ∀ c ∈ ((quoteName name).toList ++ r).head?, Text.isBlank c = false := by
    rw [List.head?_append_of_ne_nil _ (quoteName_ends name).1]
    exact fun c hc => (head_quoteName c hc).1
  by_cases hplain : isPlainName name
  · have hparts : ∀ c ∈ name.toList, isNamePart c := by
      simp only [isPlainName, Bool.and_eq_true, List.all_eq_true] at hplain
      exact hplain.2
    rw [quoteName, if_pos hplain] at hhead ⊢
    rw [← Option.not_isSome_iff_eq_none, isSome_body?, dropWhile_of_head hhead,
      (span_append hparts hr).2, h hplain, Bool.false_and]
    exact Bool.false_ne_true
  · refine body?_eq_none hhead fun c hc => ?_
    rw [quoteName, if_neg hplain, toList_quoted] at hc
    cases hc
    decide

/-- A name with points is a first part, behind which nothing or a point follows. -/
theorem quotePath_first (name : String) : ∃ first tail,
    (quotePath name).toList = (quoteName first).toList ++ tail ∧
      ((first = name ∧ tail = []) ∨ ∃ rest, tail = '.' :: rest ∧ ¬isPlainName name) := by
  rw [toList_quotePath]
  have hjoin := joinPoints_splitAt name
  have hne := splitAt_ne_nil '.' name
  generalize Text.splitAt '.' name = parts at hjoin hne
  rcases parts with - | ⟨first, - | ⟨next, rest⟩⟩
  · exact absurd rfl hne
  · exact ⟨first, [], (List.append_nil _).symm, .inl ⟨String.toList_inj.1 hjoin, rfl⟩⟩
  · refine ⟨first, _, pathChars_cons first (by simp), .inr ⟨_, rfl, fun hplain => ?_⟩⟩
    refine not_mem_of_isPlainName hplain (c := '.') (by decide) ?_
    rw [← hjoin, joinPoints_cons first (by simp)]
    simp

theorem isNamePart_space : ∀ q : List Char, ∀ c ∈ (' ' :: q).head?, isNamePart c = false := by
  rintro q _ ⟨⟩
  decide

/-- Opening braces before a name with points read a parameter at most if it is a plain name and
closing braces follow. -/
theorem body?_quotePath {name : String} {q : List Char}
    (h : isPlainName name → closesFirst q = false) :
    body? ((quotePath name).toList ++ ' ' :: q) = none := by
  obtain ⟨first, tail, hpath, ⟨rfl, rfl⟩ | ⟨rest, rfl, -⟩⟩ := quotePath_first name
  · rw [hpath, List.append_nil]
    exact body?_quoteName (isNamePart_space q) h
  · rw [hpath, List.append_assoc]
    refine body?_quoteName ?_ fun _ => rfl
    rintro _ ⟨⟩
    decide

theorem quotePath_of_isPlainName {name : String} (h : isPlainName name) :
    quotePath name = name := by
  obtain ⟨first, tail, hpath, ⟨rfl, rfl⟩ | ⟨rest, rfl, hnot⟩⟩ := quotePath_first name
  · rw [List.append_nil] at hpath
    rw [String.toList_inj.1 hpath, quoteName, if_pos h]
  · exact absurd h hnot

theorem quotePath_ends (name : String) : (quotePath name).toList ≠ [] ∧
    ∀ c ∈ (quotePath name).toList.head?, Text.isBlank c = false ∧ c ≠ '}' := by
  obtain ⟨first, tail, hpath, -⟩ := quotePath_first name
  rw [hpath, List.head?_append_of_ne_nil _ (quoteName_ends first).1]
  exact ⟨by simp [(quoteName_ends first).1], head_quoteName⟩

/-! ## Values -/

theorem isNameStart_of_isDigit {c : Char} (h : c.isDigit) : isNameStart c = false := by
  have hne : c ≠ '_' := by
    rintro rfl
    revert h
    decide
  delta Char.isDigit at h
  delta isNameStart Char.isAlpha Char.isUpper Char.isLower
  simp only [Bool.and_eq_true, decide_eq_true_eq, ge_iff_le, UInt32.le_iff_toNat_le] at h
  simp only [Bool.or_eq_false_iff, Bool.and_eq_false_imp, decide_eq_true_eq,
    decide_eq_false_iff_not, beq_eq_false_iff_ne, ge_iff_le, UInt32.le_iff_toNat_le]
  simp at h ⊢
  exact ⟨⟨by omega, by omega⟩, hne⟩

theorem formatValue_ends (value : String) : (formatValue value).toList ≠ [] ∧
    ∀ c ∈ (formatValue value).toList.head?, Text.isBlank c = false ∧ c ≠ '}' ∧
      isNameStart c = false := by
  have hhead : ∃ c, (formatValue value).toList.head? = some c ∧ Text.isBlank c = false ∧ c ≠ '}' ∧
      isNameStart c = false := by
    by_cases hparameter : isParameter value
    · rw [formatValue_of_bare (.inl hparameter), head_of_isParameter hparameter]
      exact ⟨_, rfl, by decide⟩
    · by_cases hnumber : isNumber value
      · rw [formatValue_of_bare (.inr hnumber)]
        obtain ⟨c, hc, hdigit | rfl | rfl | rfl⟩ := head_of_isNumber hnumber
        · refine ⟨c, hc, isBlank_of_isNamePart ?_, ?_, isNameStart_of_isDigit hdigit⟩
          · simp [isNamePart, Char.isAlphanum, hdigit]
          · rintro rfl
            revert hdigit
            decide
        · exact ⟨_, hc, by decide⟩
        · exact ⟨_, hc, by decide⟩
        · exact ⟨_, hc, by decide⟩
      · rw [formatValue_of_quoted (by simpa using hparameter) (by simpa using hnumber),
          toList_quoted]
        exact ⟨_, rfl, by decide⟩
  obtain ⟨c, hc, hall⟩ := hhead
  rw [hc]
  refine ⟨fun hnil => ?_, ?_⟩
  · rw [hnil] at hc
    cases hc
  · rintro _ ⟨⟩
    exact hall

theorem parametersOf_eq_nil {s : String} (h : Shows s ∅) :
    parametersOf (scan .code s.toList).1 = [] := by
  rw [← occurrences_eq, List.eq_nil_iff_forall_not_mem]
  intro p hp
  have hshown : String.ofList p.name ∈ shown s :=
    (mem_foldl_names (occurrences s) []).2 (.inr ⟨p, hp, rfl⟩)
  rw [h.shown] at hshown
  exact hshown

/-- The parameters of a written value: the value itself, if it is one. -/
theorem parametersOf_formatValue (value : String) :
    parametersOf (scan .code (formatValue value).toList).1 =
      if isParameter value then occurrences value else [] := by
  by_cases hparameter : isParameter value
  · rw [if_pos hparameter, formatValue_of_bare (.inl hparameter)]
    rfl
  · rw [if_neg hparameter]
    refine parametersOf_eq_nil ?_
    have hshows := shows_formatValue value
    simpa [hparameter] using hshows

/-- The text of a parameter is its one piece. -/
theorem scan_of_isParameter {s : String} (h : isParameter s) :
    ∃ p rest, at? s.toList = some (p, rest) ∧ p.written = s.toList ∧
      (scan .code s.toList).1 = [.parameter p] := by
  unfold isParameter at h
  split at h
  · rename_i p rest hat
    obtain rfl := List.isEmpty_iff.1 h
    refine ⟨p, [], hat, by simpa using (at?_written hat).symm, ?_⟩
    cases hs : s.toList with
    | nil =>
      rw [hs] at hat
      cases hat
    | cons c cs =>
      rw [hs] at hat
      rw [scan_parameter hat, scan]
  · cases h

/-- A parameter is the only one in its text. -/
theorem occurrences_parameter {value : String} (h : isParameter value) :
    ∃ x : Parameter, occurrences value = [x] ∧ x.written = value.toList := by
  obtain ⟨x, rest, -, hwritten, hscan⟩ := scan_of_isParameter h
  refine ⟨x, ?_, hwritten⟩
  rw [occurrences_eq, hscan]
  rfl

/-! ## Between two texts -/

theorem toList_between (p x q : String) :
    (p ++ " " ++ x ++ " " ++ q).toList = p.toList ++ ' ' :: (x.toList ++ ' ' :: q.toList) := by
  simp [String.toList_append]

/-- Between two texts, of which the first one ends outside of quotes and comments, a written value
is scanned by itself, and so are written names unless braces around a plain name make a parameter of
it.  The second text is scanned as it is. -/
theorem occurrences_between {p : String} (hp : (scan .code p.toList).2 = .code) (v q : String) :
    (occurrences (p ++ " " ++ formatValue v ++ " " ++ q) =
        occurrences p ++ (if isParameter v then occurrences v else []) ++ occurrences q ∧
      (scan .code (p ++ " " ++ formatValue v ++ " " ++ q).toList).2 = (scan .code q.toList).2) ∧
    (isParameter v → ∃ x : Parameter, occurrences v = [x] ∧ x.written = v.toList) ∧
    ∀ name ∈ [quoteName v, quotePath v],
      occurrences (p ++ " " ++ name ++ " " ++ q) =
          occurrences p ++ captured p v q ++ occurrences q ∧
        (scan .code (p ++ " " ++ name ++ " " ++ q).toList).2 = (scan .code q.toList).2 := by
  have hcomplete : ∀ {x : String} {S : Set String}, Shows x S → Complete (String.ofList x.toList) :=
    fun h => by
      rw [String.ofList_toList]
      exact h.toComplete
  simp only [occurrences_eq, toList_between]
  refine ⟨?_, occurrences_parameter, ?_⟩
  · obtain ⟨hne, hhead⟩ := formatValue_ends v
    have hhead' : ∀ c ∈ ((formatValue v).toList ++ ' ' :: q.toList).head?,
        Text.isBlank c = false ∧ c ≠ '}' ∧ isNameStart c = false := by
      rwa [List.head?_append_of_ne_nil _ hne]
    have hscan := scan_between hp (q := q.toList) (hcomplete (shows_formatValue v))
      (fun c hc => ⟨(hhead c hc).1, (hhead c hc).2.1⟩) hne fun _ =>
        body?_eq_none (fun c hc => (hhead' c hc).1) fun c hc => (hhead' c hc).2.2
    rwa [parametersOf_formatValue] at hscan
  · by_cases hcaptured : endsOpen p.toList ∧ isPlainName v ∧ closesFirst q.toList
    · obtain ⟨hopen, hplain, hclose⟩ := hcaptured
      have hscan := scan_captured hopen hplain hclose
      intro name hname
      have hwritten : name = v := by
        rcases List.mem_pair.1 hname with rfl | rfl
        · rw [quoteName, if_pos hplain]
        · exact quotePath_of_isPlainName hplain
      rwa [hwritten]
    · have hnone : captured p v q = [] := by
        rw [captured, if_neg (by simpa [and_assoc] using hcaptured)]
      have hclose : endsOpen p.toList → isPlainName v → closesFirst q.toList = false :=
        fun hopen hplain => Bool.eq_false_iff.2 fun hclose => hcaptured ⟨hopen, hplain, hclose⟩
      rw [hnone]
      intro name hname
      rcases List.mem_pair.1 hname with rfl | rfl
      · have hscan := scan_between hp (q := q.toList) (hcomplete (shows_quoteName v)) head_quoteName
          (quoteName_ends v).1 fun hopen => body?_quoteName (isNamePart_space _) (hclose hopen)
        rwa [parametersOf_eq_nil (shows_quoteName v)] at hscan
      · have hscan := scan_between hp (q := q.toList) (hcomplete (shows_quotePath v))
          (quotePath_ends v).2 (quotePath_ends v).1 fun hopen => body?_quotePath (hclose hopen)
        rwa [parametersOf_eq_nil (shows_quotePath v)] at hscan

/-- Quotes, comments and braces in a value stay between its quotes. -/
theorem occurrences_between_sample :
    (scan .code "SELECT \x7b\x7ba\x7d\x7d || ".toList).2 = .code ∧
      (occurrences ("SELECT \x7b\x7ba\x7d\x7d || " ++ " " ++ formatValue "' -- \x7b\x7bb\x7d\x7d"
        ++ " " ++ "|| \x7b\x7bc\x7d\x7d")).map (String.ofList ·.name) = ["a", "c"] := by
  have hcode : (scan .code "SELECT \x7b\x7ba\x7d\x7d || ".toList).2 = .code := by decide +kernel
  obtain ⟨⟨hvalue, -⟩, -⟩ :=
    occurrences_between hcode "' -- \x7b\x7bb\x7d\x7d" "|| \x7b\x7bc\x7d\x7d"
  refine ⟨hcode, ?_⟩
  rw [hvalue]
  decide +kernel

/-- Braces around a plain name make a parameter of it, though there is none in the texts around
it. -/
theorem name_captured : (scan .code "\x7b\x7b".toList).2 = .code ∧
    occurrences ("\x7b\x7b" ++ " " ++ quoteName "name" ++ " " ++ "\x7d\x7d") ≠
      occurrences "\x7b\x7b" ++ occurrences "\x7d\x7d" ∧
    (occurrences ("\x7b\x7b" ++ " " ++ quoteName "name" ++ " " ++ "\x7d\x7d")).map
      (String.ofList ·.name) = ["name"] := by
  decide +kernel

end QueryCanvas.Sql
