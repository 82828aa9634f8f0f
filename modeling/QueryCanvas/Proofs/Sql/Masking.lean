import Mathlib.Data.List.Forall2
import Mathlib.Data.List.Infix
import QueryCanvas.Proofs.Sql.Surrounded

/-!
# Parameters between single quotes

For parsing, each parameter of a text is put between single quotes.  The parameters stand one behind
the other, the quotes stand exactly around them, and a text so masked has no parameters left:
neither can a quote that is put in complete a mark of a comment, nor is anything read as a parameter
across it.
-/

set_option autoImplicit false

namespace QueryCanvas.Parameter

variable {m : Mode} {cs rest : List Char} {p : Parameter} {ps : List Piece}

/-! ## What is written of a parameter -/

/-- A parameter is read off what is written of it, whatever follows. -/
theorem at?_written_append (h : at? cs = some (p, rest)) (r : List Char) :
    at? (p.written ++ r) = some (p, r) := by
  obtain ⟨front, hfront, hread⟩ := at?_eq_some h
  have hwritten : p.written = front ++ ['}', '}'] := by
    have hsplit : p.written ++ rest = front ++ ['}', '}'] ++ rest := by
      rw [← at?_written h, hfront, List.append_assoc]
      rfl
    exact List.append_cancel_right hsplit
  rw [hwritten, List.append_assoc]
  exact hread r

theorem at?_self (h : at? cs = some (p, rest)) : at? p.written = some (p, []) := by
  simpa using at?_written_append h []

theorem isParameter_iff {w : String} :
    isParameter w ↔ ∃ p, at? w.toList = some (p, []) ∧ p.written = w.toList := by
  constructor
  · intro h
    obtain ⟨p, rest, hat, hwritten, -⟩ := Sql.scan_of_isParameter h
    refine ⟨p, ?_, hwritten⟩
    have hself := at?_self hat
    rwa [hwritten] at hself
  · rintro ⟨p, hat, -⟩
    simp [isParameter, hat]

/-- Behind the opening braces stand blanks, the name, blanks and the closing braces. -/
theorem written_eq (h : at? cs = some (p, rest)) : ∃ body, p.written = '{' :: '{' :: body ∧
    ∀ c ∈ body, c = '}' ∨ Text.isBlank c ∨ isNamePart c := by
  unfold at? at h
  split at h
  · rw [body?_eq] at h
    split at h
    · split at h
      · obtain ⟨rfl, -⟩ := Prod.mk.inj (Option.some.inj h)
        rename_i cs _ _ _ _
        refine ⟨cs.takeWhile Text.isBlank ++ (cs.dropWhile Text.isBlank).takeWhile isNamePart ++
          ((cs.dropWhile Text.isBlank).dropWhile isNamePart).takeWhile Text.isBlank ++ ['}', '}'],
          rfl, fun c hc => ?_⟩
        simp only [List.mem_append, List.mem_cons, List.not_mem_nil, or_false] at hc
        rcases hc with ((hblank | hname) | hblank) | rfl | rfl
        · exact .inr (.inl (List.mem_takeWhile_imp hblank))
        · exact .inr (.inr (List.mem_takeWhile_imp hname))
        · exact .inr (.inl (List.mem_takeWhile_imp hblank))
        · exact .inl rfl
        · exact .inl rfl
      · cases h
    · cases h
  · cases h

/-- Between its braces a parameter has nothing but blanks and its name. -/
theorem mem_written (h : at? cs = some (p, rest)) {c : Char} (hc : c ∈ p.written) :
    c = '{' ∨ c = '}' ∨ Text.isBlank c ∨ isNamePart c := by
  obtain ⟨body, hwritten, hbody⟩ := written_eq h
  rw [hwritten, List.mem_cons, List.mem_cons] at hc
  rcases hc with rfl | rfl | hc
  · exact .inl rfl
  · exact .inl rfl
  · exact .inr (hbody c hc)

theorem not_mem_written (h : at? cs = some (p, rest)) {c : Char}
    (hbrace : c ≠ '{' ∧ c ≠ '}') (hblank : Text.isBlank c = false) (hname : isNamePart c = false) :
    c ∉ p.written := by
  intro hc
  rcases mem_written h hc with rfl | rfl | hc | hc
  · exact hbrace.1 rfl
  · exact hbrace.2 rfl
  · rw [hblank] at hc
    cases hc
  · rw [hname] at hc
    cases hc

theorem isQuote_not_mem_written (h : at? cs = some (p, rest)) {mark : Char} (hmark : isQuote mark) :
    mark ∉ p.written := by
  simp only [isQuote, Bool.or_eq_true, beq_iff_eq] at hmark
  obtain (rfl | rfl) | rfl := hmark
  all_goals exact not_mem_written h (by decide) (by decide) (by decide)

/-! ## Pieces -/

namespace Piece

/-- The characters that a piece stands for. -/
def written : Piece → List Char
  | .plain c => [c]
  | .parameter p => p.written

end Piece

/-- Each parameter among the pieces is read off what is written of it. -/
def AllRead (ps : List Piece) : Prop := ∀ p, Piece.parameter p ∈ ps → at? p.written = some (p, [])

theorem AllRead.of_cons {x : Piece} (h : AllRead (x :: ps)) : AllRead ps :=
  fun p hp => h p (List.mem_cons_of_mem x hp)

theorem AllRead.append {ps' : List Piece} (h : AllRead (ps ++ ps')) : AllRead ps ∧ AllRead ps' :=
  ⟨fun p hp => h p (List.mem_append_left _ hp), fun p hp => h p (List.mem_append_right _ hp)⟩

theorem AllRead.written_ne_nil (h : AllRead ps) {x : Piece} (hx : x ∈ ps) : x.written ≠ [] := by
  cases x with
  | plain c => exact List.cons_ne_nil c []
  | parameter p =>
    intro hnil
    have hread := h p hx
    rw [show p.written = [] from hnil] at hread
    cases hread

/-- The pieces of a text stand for its characters. -/
theorem scan_written (m : Mode) (cs : List Char) :
    (scan m cs).1.flatMap Piece.written = cs := by
  fun_induction scan m cs with
  | case4 c cs hdash hslash p rest hread ps last hscan ih =>
    rw [hscan] at ih
    rw [List.flatMap_cons, ih]
    exact (at?_written hread).symm
  | _ => simp_all [Piece.written]

theorem scan_allRead (m : Mode) (cs : List Char) : AllRead (scan m cs).1 := by
  fun_induction scan m cs with
  | case4 c cs hdash hslash p rest hread ps last hscan ih =>
    rw [hscan] at ih
    intro q hq
    rcases List.mem_cons.1 hq with heq | hq
    · rw [Piece.parameter.inj heq]
      exact at?_self hread
    · exact ih q hq
  | _ => simp_all [AllRead]

theorem written_plain (u : List Char) : (u.map Piece.plain).flatMap Piece.written = u := by
  induction u with
  | nil => rfl
  | cons c u ih => rw [List.map_cons, List.flatMap_cons, ih]; rfl

theorem masked_plain (u : List Char) : (u.map Piece.plain).flatMap Piece.masked = u := by
  induction u with
  | nil => rfl
  | cons c u ih => rw [List.map_cons, List.flatMap_cons, ih]; rfl

/-! ## Where parameters stand -/

/-- A part of a text, told by the number of characters in front of it and up to its end. -/
structure Span where
  start : Nat
  stop : Nat
deriving DecidableEq, Repr

/-- The characters of a text in a span. -/
def Span.text (a : Span) (cs : List Char) : List Char := (cs.take a.stop).drop a.start

/-- Where the parameters among pieces stand, of which so many characters are in front. -/
def spansFrom : Nat → List Piece → List Span
  | _, [] => []
  | n, .plain _ :: ps => spansFrom (n + 1) ps
  | n, .parameter p :: ps => ⟨n, n + p.written.length⟩ :: spansFrom (n + p.written.length) ps

/-- Where the parameters of a query text stand. -/
def spans (s : String) : List Span := spansFrom 0 (scan .code s.toList).1

/-- The span lies in the text and holds exactly what is written of the parameter. -/
structure Span.Covers (cs : List Char) (a : Span) (p : Parameter) : Prop where
  nonempty : a.start < a.stop
  inside : a.stop ≤ cs.length
  text : a.text cs = p.written
  read : at? p.written = some (p, [])

theorem start_le_of_mem_spansFrom {n : Nat} {a : Span} (h : a ∈ spansFrom n ps) : n ≤ a.start := by
  fun_induction spansFrom n ps with
  | case1 n => cases h
  | case2 n c ps ih => exact Nat.le_of_succ_le (ih h)
  | case3 n p ps ih =>
    rcases List.mem_cons.1 h with rfl | h
    · exact Nat.le_refl n
    · exact Nat.le_of_add_right_le (ih h)

theorem spansFrom_increasing (n : Nat) (ps : List Piece) :
    (spansFrom n ps).Pairwise fun a b => a.stop ≤ b.start := by
  fun_induction spansFrom n ps with
  | case1 n => exact .nil
  | case2 n c ps ih => exact ih
  | case3 n p ps ih => exact .cons (fun b hb => start_le_of_mem_spansFrom hb) ih

theorem spansFrom_covers (before : List Char) (h : AllRead ps) :
    (spansFrom before.length ps).Forall₂
      (Span.Covers (before ++ ps.flatMap Piece.written)) (parametersOf ps) := by
  induction ps generalizing before with
  | nil => exact .nil
  | cons x ps ih =>
    cases x with
    | plain c =>
      have hrest := ih (before ++ [c]) h.of_cons
      rw [List.length_append, List.append_assoc] at hrest
      exact hrest
    | parameter p =>
      have hread := h p List.mem_cons_self
      have hrest := ih (before ++ p.written) h.of_cons
      rw [List.length_append, List.append_assoc] at hrest
      refine .cons ⟨?_, ?_, ?_, hread⟩ hrest
      · exact Nat.lt_add_of_pos_right
          (List.length_pos_iff.2 (h.written_ne_nil (x := .parameter p) List.mem_cons_self))
      · rw [List.flatMap_cons, List.length_append, List.length_append]
        exact Nat.add_le_add_left (Nat.le_add_right _ _) _
      · simp [Span.text, Piece.written, List.take_append]

/-! ## The quotes that masking puts in -/

/-- Where masking puts quotes: around each span, behind the quotes around those before it. -/
def inserted (s : String) : List Nat :=
  (spans s).zipIdx.flatMap fun (a, k) => [a.start + 2 * k, a.stop + 2 * k + 1]

/-- The characters that are not at one of the given places, where so many are in front. -/
def withoutFrom (places : List Nat) : Nat → List Char → List Char
  | _, [] => []
  | n, c :: cs =>
    if n ∈ places then withoutFrom places (n + 1) cs else c :: withoutFrom places (n + 1) cs

/-- The text without the characters at the given places. -/
def without (places : List Nat) (cs : List Char) : List Char := withoutFrom places 0 cs

/-- The places of the quotes in the masked text of pieces behind so many characters. -/
def insertedFrom : Nat → List Piece → List Nat
  | _, [] => []
  | n, .plain _ :: ps => insertedFrom (n + 1) ps
  | n, .parameter p :: ps =>
    n :: (n + p.written.length + 1) :: insertedFrom (n + p.written.length + 2) ps

theorem insertedFrom_eq (n k : Nat) (ps : List Piece) :
    ((spansFrom n ps).zipIdx k).flatMap (fun (a, k) => [a.start + 2 * k, a.stop + 2 * k + 1]) =
      insertedFrom (n + 2 * k) ps := by
  induction ps generalizing n k with
  | nil => rfl
  | cons x ps ih =>
    cases x with
    | plain c =>
      rw [spansFrom, insertedFrom, ih]
      congr 1
      omega
    | parameter p =>
      rw [spansFrom, insertedFrom, List.zipIdx_cons, List.flatMap_cons, ih]
      simp only [List.cons_append, List.nil_append, List.cons.injEq, true_and]
      constructor
      · omega
      · congr 1
        omega

theorem le_of_mem_insertedFrom {n i : Nat} (h : i ∈ insertedFrom n ps) : n ≤ i := by
  fun_induction insertedFrom n ps with
  | case1 n => cases h
  | case2 n c ps ih => exact Nat.le_of_succ_le (ih h)
  | case3 n p ps ih =>
    rcases List.mem_cons.1 h with heq | h
    · exact heq.ge
    rcases List.mem_cons.1 h with heq | h
    · omega
    · have := ih h
      omega

theorem withoutFrom_append {places : List Nat} (n : Nat) (u cs : List Char) :
    withoutFrom places n (u ++ cs) =
      withoutFrom places n u ++ withoutFrom places (n + u.length) cs := by
  induction u generalizing n with
  | nil => rfl
  | cons c u ih =>
    have hlength : n + (c :: u).length = n + 1 + u.length := by
      rw [List.length_cons]
      omega
    rw [List.cons_append, withoutFrom, withoutFrom, ih, hlength]
    split
    · rfl
    · rfl

/-- Places outside of a part of the text take nothing from it. -/
theorem withoutFrom_of_outside {places : List Nat} {n : Nat} {cs : List Char}
    (h : ∀ i ∈ places, i < n ∨ n + cs.length ≤ i) : withoutFrom places n cs = cs := by
  induction cs generalizing n with
  | nil => rfl
  | cons c cs ih =>
    simp only [List.length_cons] at h
    have hkept : n ∉ places := fun hmem => by
      have := h n hmem
      omega
    rw [withoutFrom, if_neg hkept, ih]
    intro i hi
    have := h i hi
    have hne : i ≠ n := fun heq => hkept (heq ▸ hi)
    omega

/-- Places in front of a part of the text do not matter for it. -/
theorem withoutFrom_cons {places : List Nat} {i n : Nat} (h : i < n) (cs : List Char) :
    withoutFrom (i :: places) n cs = withoutFrom places n cs := by
  induction cs generalizing n with
  | nil => rfl
  | cons c cs ih =>
    simp only [withoutFrom, List.mem_cons, h.ne', false_or, ih (Nat.lt_succ_of_lt h)]

/-- Without the quotes that are put in, the masked pieces are what they stand for. -/
theorem withoutFrom_insertedFrom (n : Nat) (ps : List Piece) :
    withoutFrom (insertedFrom n ps) n (ps.flatMap Piece.masked) = ps.flatMap Piece.written := by
  induction ps generalizing n with
  | nil => rfl
  | cons x ps ih =>
    cases x with
    | plain c =>
      have hkept : n ∉ insertedFrom (n + 1) ps := fun hmem =>
        absurd (le_of_mem_insertedFrom hmem) (Nat.not_succ_le_self n)
      change withoutFrom (insertedFrom (n + 1) ps) n (c :: ps.flatMap Piece.masked) =
        c :: ps.flatMap Piece.written
      rw [withoutFrom, if_neg hkept, ih]
    | parameter p =>
      have houtside : ∀ i ∈ (n + 1 + p.written.length) ::
          insertedFrom (n + 1 + p.written.length + 1) ps,
          i < n + 1 ∨ n + 1 + p.written.length ≤ i := by
        intro i hi
        rcases List.mem_cons.1 hi with heq | hi
        · exact .inr heq.ge
        · exact .inr (Nat.le_of_succ_le (le_of_mem_insertedFrom hi))
      have hplaces : insertedFrom n (.parameter p :: ps) = n :: (n + 1 + p.written.length) ::
          insertedFrom (n + 1 + p.written.length + 1) ps := by
        rw [insertedFrom, Nat.add_right_comm n p.written.length 1, Nat.add_assoc _ _ 2]
        congr 3
        omega
      change withoutFrom _ n ('\'' :: (p.written ++ ['\'']) ++ ps.flatMap Piece.masked) =
        p.written ++ ps.flatMap Piece.written
      rw [hplaces, List.cons_append, withoutFrom, if_pos List.mem_cons_self,
        withoutFrom_cons (Nat.lt_succ_self n), List.append_assoc, withoutFrom_append,
        withoutFrom_of_outside houtside, List.singleton_append, withoutFrom,
        if_pos List.mem_cons_self, withoutFrom_cons (Nat.lt_succ_self _), ih]

theorem getElem?_insertedFrom (before : List Char) {i : Nat}
    (h : i ∈ insertedFrom before.length ps) :
    (before ++ ps.flatMap Piece.masked)[i]? = some '\'' := by
  induction ps generalizing before with
  | nil => cases h
  | cons x ps ih =>
    cases x with
    | plain c =>
      have hrest := ih (before ++ [c]) (by simpa [insertedFrom] using h)
      rwa [List.append_assoc] at hrest
    | parameter p =>
      have hmasked : before ++ (Piece.parameter p :: ps).flatMap Piece.masked =
          before ++ '\'' :: (p.written ++ '\'' :: ps.flatMap Piece.masked) := by
        simp [Piece.masked]
      rw [hmasked]
      rcases List.mem_cons.1 h with rfl | h
      · simp
      rcases List.mem_cons.1 h with rfl | h
      · rw [List.getElem?_append_right (by omega)]
        rw [show before.length + p.written.length + 1 - before.length = p.written.length + 1 by
          omega, List.getElem?_cons_succ, List.getElem?_append_right (Nat.le_refl _)]
        simp
      · have hrest := ih (before ++ '\'' :: (p.written ++ ['\''])) (by
          simpa [Nat.add_assoc] using h)
        simpa using hrest

/-! ## The scan of a masked text -/

/-- The quotes stand outside of everything else that is masked: a beginning without quotes is made
of plain characters. -/
theorem plain_of_masked {u r : List Char} (h : ps.flatMap Piece.masked = u ++ r) (hu : '\'' ∉ u) :
    ∃ ps', ps = u.map .plain ++ ps' ∧ ps'.flatMap Piece.masked = r := by
  induction u generalizing ps with
  | nil => exact ⟨ps, rfl, h⟩
  | cons c u ih =>
    rw [List.mem_cons, not_or] at hu
    match ps, h with
    | .plain x :: ps, h =>
      obtain ⟨rfl, htail⟩ := List.cons.inj h
      obtain ⟨ps', rfl, hrest⟩ := ih htail hu.2
      exact ⟨ps', rfl, hrest⟩
    | .parameter p :: ps, h => exact absurd (List.cons.inj h).1 hu.1

/-- A masked text begins like the text itself or with a quote. -/
theorem head?_masked {c : Char} (h : (ps.flatMap Piece.masked).head? = some c) :
    (ps.flatMap Piece.written).head? = some c ∨ c = '\'' := by
  match ps, h with
  | .plain x :: ps, h => exact .inl h
  | .parameter p :: ps, h => exact .inr (Option.some.inj h).symm

/-- The characters that are plain in a mode and leave it as it is. -/
def Mode.keeps : Mode → Char → Bool
  | .code, c => opensNothing c
  | .quoted mark, c => c != mark
  | .lineComment, c => c != '\n'
  | .blockComment, c => c != '*'

theorem scan_keeps {u : List Char} (hu : ∀ c ∈ u, m.keeps c) (r : List Char) :
    scan m (u ++ r) = (u.map .plain ++ (scan m r).1, (scan m r).2) := by
  cases m with
  | code => exact scan_calm hu r
  | quoted mark =>
    induction u with
    | nil => rfl
    | cons c u ih =>
      obtain ⟨hc, hu⟩ := List.forall_mem_cons.1 hu
      simp only [Mode.keeps, bne_iff_ne] at hc
      rw [List.cons_append, scan, if_neg hc, ih hu]
      rfl
  | lineComment =>
    induction u with
    | nil => rfl
    | cons c u ih =>
      obtain ⟨hc, hu⟩ := List.forall_mem_cons.1 hu
      simp only [Mode.keeps, bne_iff_ne] at hc
      rw [List.cons_append, scan, if_neg hc, ih hu]
      rfl
  | blockComment =>
    induction u with
    | nil => rfl
    | cons c u ih =>
      obtain ⟨hc, hu⟩ := List.forall_mem_cons.1 hu
      simp only [Mode.keeps, bne_iff_ne] at hc
      rw [List.cons_append, scan_block_plain (absurd · hc), ih hu]
      rfl

/-- The quotes around a parameter are opened and closed again. -/
theorem scan_enclosed (h : at? cs = some (p, rest)) (r : List Char) :
    scan .code ('\'' :: (p.written ++ '\'' :: r)) =
      (.plain '\'' :: (p.written.map .plain ++ .plain '\'' :: (scan .code r).1),
        (scan .code r).2) := by
  have hkeeps : ∀ c ∈ p.written, (Mode.quoted '\'').keeps c := by
    intro c hc
    simp only [Mode.keeps, bne_iff_ne]
    rintro rfl
    exact isQuote_not_mem_written h (by decide) hc
  have hnone : ∀ r, at? ('\'' :: r) = none := fun r => rfl
  rw [scan_code_plain (absurd · (by decide)) (absurd · (by decide)) (hnone _)]
  simp only [isQuote, beq_self_eq_true, Bool.true_or, if_true]
  rw [scan_keeps hkeeps, scan, if_pos rfl]

/-- What begins no parameter begins none when the parameters behind it are masked. -/
theorem at?_masked {c : Char} (h : at? (c :: ps.flatMap Piece.written) = none) :
    at? (c :: ps.flatMap Piece.masked) = none := by
  by_contra hsome
  obtain ⟨⟨q, r⟩, hq⟩ := Option.ne_none_iff_exists'.1 hsome
  have hread : (Piece.plain c :: ps).flatMap Piece.masked = q.written ++ r := at?_written hq
  obtain ⟨ps', hplain, -⟩ := plain_of_masked hread (isQuote_not_mem_written hq (by decide))
  have hwritten : c :: ps.flatMap Piece.written = q.written ++ ps'.flatMap Piece.written := by
    have hall := congrArg (List.flatMap Piece.written) hplain
    rwa [List.flatMap_append, written_plain] at hall
  rw [hwritten, at?_written_append hq] at h
  cases h

/-- Masked, a text has nothing but plain characters, and its scan ends in the same mode. -/
theorem scan_masked (m : Mode) (cs : List Char) :
    scan m ((scan m cs).1.flatMap Piece.masked) =
      (((scan m cs).1.flatMap Piece.masked).map .plain, (scan m cs).2) := by
  -- no mark of a comment is completed by a quote that is put in
  have hhead : ∀ {m : Mode} {cs : List Char} {ps : List Piece} {last : Mode} {c : Char},
      scan m cs = (ps, last) → c ≠ '\'' → (∀ cs', cs ≠ c :: cs') →
        (ps.flatMap Piece.masked).head? ≠ some c := by
    intro m cs ps last c hscan hquote hnot heq
    have hwritten := scan_written m cs
    rw [hscan] at hwritten
    rcases head?_masked heq with hhead | rfl
    · obtain ⟨cs', hcs'⟩ := List.head?_eq_some_iff.1 hhead
      exact hnot cs' (hwritten ▸ hcs')
    · exact hquote rfl
  fun_induction scan m cs with
  | case1 mode => simp [scan]
  | case2 cs ps last hscan ih =>
    rw [hscan] at ih
    simp [Piece.masked, scan, ih]
  | case3 cs ps last hscan ih =>
    rw [hscan] at ih
    simp [Piece.masked, scan, ih]
  | case4 c cs hdash hslash p rest hread ps last hscan ih =>
    rw [hscan] at ih
    have hmasked : (Piece.parameter p :: ps).flatMap Piece.masked =
        '\'' :: (p.written ++ '\'' :: ps.flatMap Piece.masked) := by simp [Piece.masked]
    rw [hmasked, scan_enclosed hread, ih]
    simp
  | case5 c cs hdash hslash hread ps last hscan ih =>
    have hwritten := scan_written (if isQuote c then .quoted c else .code) cs
    simp only [dite_eq_ite] at hscan ih
    rw [hscan] at ih hwritten
    rw [← hwritten] at hread
    change scan .code (c :: ps.flatMap Piece.masked) = (_ :: _, _)
    rw [scan_code_plain (fun hc => hhead hscan (by decide) fun cs' => hdash cs' hc)
      (fun hc => hhead hscan (by decide) fun cs' => hslash cs' hc) (at?_masked hread), ih]
    rfl
  | case6 mark c cs ps last hscan ih =>
    simp only [dite_eq_ite] at hscan ih
    rw [hscan] at ih
    simp [Piece.masked, scan, ih]
  | case7 c cs ps last hscan ih =>
    simp only [dite_eq_ite] at hscan ih
    rw [hscan] at ih
    simp [Piece.masked, scan, ih]
  | case8 cs ps last hscan ih =>
    rw [hscan] at ih
    simp [Piece.masked, scan, ih]
  | case9 c cs hmark ps last hscan ih =>
    rw [hscan] at ih
    change scan .blockComment (c :: ps.flatMap Piece.masked) = (_ :: _, _)
    rw [scan_block_plain fun hc => hhead hscan (by decide) fun cs' => hmark cs' hc, ih]
    rfl

theorem toList_mask (s : String) :
    (mask s).toList = (scan .code s.toList).1.flatMap Piece.masked := String.toList_ofList

theorem occurrences_mask (s : String) : occurrences (mask s) = [] := by
  rw [occurrences_eq, toList_mask, scan_masked, parametersOf_plain]

theorem mask_mask (s : String) : mask (mask s) = mask s := by
  have hchars : (mask (mask s)).toList = (mask s).toList := by
    rw [toList_mask (mask s), toList_mask s, scan_masked, masked_plain]
  exact String.toList_inj.1 hchars

end QueryCanvas.Parameter
