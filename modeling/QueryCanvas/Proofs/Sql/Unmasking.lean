import QueryCanvas.Proofs.Sql.Masking

/-!
# Taking the quotes off again

Unmasking takes the single quotes off each parameter that stands between them, wherever that is, and
so gives a masked text back if none stood there before.  There is one more exception: in a comment
that ends with the line, a quote before something that looks like a parameter but goes beyond the
end of the line, with a parameter directly behind it.  Then unmasking takes the quote of the comment
for the first of two that enclose a parameter.
-/

set_option autoImplicit false

namespace QueryCanvas.Parameter

variable {m : Mode} {cs rest : List Char} {p : Parameter} {ps : List Piece}

/-! ## Taking the quotes off -/

/-- The pieces begin with a quote behind which, as they are masked, a parameter and a quote
stand, though this quote is none of those that enclose a parameter. -/
def Caught (ps : List Piece) : Prop :=
  ∃ (w : List Char) (ps' : List Piece), ps = .plain '\'' :: (w.map .plain ++ ps') ∧
    (∃ q, at? w = some (q, [])) ∧ (ps'.flatMap Piece.masked).head? = some '\''

theorem unmaskChars_enclosed (h : at? cs = some (p, rest)) (r : List Char) :
    unmaskChars ('\'' :: (p.written ++ '\'' :: r)) = p.written ++ unmaskChars r := by
  rw [unmaskChars, if_pos rfl, at?_written_append h]
  rfl

theorem unmaskChars_other {c : Char} (h : c ≠ '\'') (r : List Char) :
    unmaskChars (c :: r) = c :: unmaskChars r := by
  rw [unmaskChars, if_neg h]

/-- A quote stays unless it is the first of two that enclose a parameter. -/
theorem unmaskChars_quote (h : ∀ q r, at? cs ≠ some (q, '\'' :: r)) :
    unmaskChars ('\'' :: cs) = '\'' :: unmaskChars cs := by
  rw [unmaskChars]
  split
  · rename_i heq
    rw [if_pos rfl] at heq
    exact absurd heq (h _ _)
  · rfl

/-- Where a parameter and a quote stand behind a quote that is no part of a masked parameter, all
of this but the last quote is in the text that is masked. -/
theorem caught_iff {ps : List Piece} : Caught (.plain '\'' :: ps) ↔
    ∃ q r, at? (ps.flatMap Piece.masked) = some (q, '\'' :: r) := by
  constructor
  · rintro ⟨w, ps', heq, ⟨q, hq⟩, hhead⟩
    obtain ⟨r, hr⟩ := List.head?_eq_some_iff.1 hhead
    obtain rfl := (List.cons.inj heq).2
    refine ⟨q, r, ?_⟩
    have hw : w = q.written := by simpa using at?_written hq
    rw [List.flatMap_append, masked_plain, hr, hw]
    exact at?_written_append hq _
  · rintro ⟨q, r, hq⟩
    obtain ⟨ps', rfl, hrest⟩ := plain_of_masked (at?_written hq)
      (isQuote_not_mem_written hq (by decide))
    exact ⟨q.written, ps', rfl, ⟨q, at?_self hq⟩, by rw [hrest]; rfl⟩

/-- Unmasking takes off the quotes that were put in and no others, unless another quote is taken
for one of them. -/
theorem unmaskChars_masked_iff (h : AllRead ps) :
    unmaskChars (ps.flatMap Piece.masked) = ps.flatMap Piece.written ↔
      ∀ ps', ps' <:+ ps → ¬Caught ps' := by
  induction ps with
  | nil =>
    refine ⟨?_, fun _ => by simp [unmaskChars]⟩
    rintro - ps' hsuffix ⟨w, ps'', rfl, -⟩
    simp at hsuffix
  | cons x ps ih =>
    have hcons : (∀ ps', ps' <:+ x :: ps → ¬Caught ps') ↔
        ¬Caught (x :: ps) ∧ ∀ ps', ps' <:+ ps → ¬Caught ps' := by
      simp only [List.suffix_cons_iff, forall_eq_or_imp]
    rw [hcons, ← ih h.of_cons]
    cases x with
    | parameter p =>
      have hnot : ¬Caught (.parameter p :: ps) := by
        rintro ⟨w, ps', heq, -⟩
        cases heq
      have hmasked : (Piece.parameter p :: ps).flatMap Piece.masked =
          '\'' :: (p.written ++ '\'' :: ps.flatMap Piece.masked) := by simp [Piece.masked]
      rw [hmasked, unmaskChars_enclosed (h p List.mem_cons_self), and_iff_right hnot]
      exact List.append_right_inj p.written
    | plain c =>
      by_cases hquote : c = '\''
      · subst hquote
        change unmaskChars ('\'' :: ps.flatMap Piece.masked) = '\'' :: ps.flatMap Piece.written ↔ _
        by_cases hcaught : Caught (.plain '\'' :: ps)
        · obtain ⟨q, r, hq⟩ := caught_iff.1 hcaught
          have hq' := at?_written hq
          rw [hq', unmaskChars_enclosed hq]
          obtain ⟨body, hbody, -⟩ := written_eq hq
          simp [hcaught, hbody]
        · have hnot := caught_iff.not.1 hcaught
          simp only [not_exists] at hnot
          rw [unmaskChars_quote hnot, and_iff_right hcaught, List.cons.injEq, and_iff_right rfl]
      · have hnot : ¬Caught (.plain c :: ps) := by
          rintro ⟨w, ps', heq, -⟩
          exact hquote (Piece.plain.inj (List.cons.inj heq).1)
        change unmaskChars (c :: ps.flatMap Piece.masked) = c :: ps.flatMap Piece.written ↔ _
        rw [unmaskChars_other hquote, and_iff_right hnot, List.cons.injEq, and_iff_right rfl]

/-! ## Quotes of the text itself -/

/-- Somewhere in the text a parameter stands between single quotes. -/
def Encloses (s : String) : Prop :=
  ∃ w : String, isParameter w ∧ ('\'' :: (w.toList ++ ['\''])) <:+: s.toList

/-- In a comment that ends with the line, a single quote stands before what looks like a parameter
but goes beyond the end of the line, and directly behind this a parameter begins. -/
def Straddles (s : String) : Prop :=
  ∃ (before : List Char) (w : String) (rest : List Char),
    s.toList = before ++ '\'' :: (w.toList ++ rest) ∧ isParameter w ∧ '\n' ∈ w.toList ∧
      (scan .code before).2 = .lineComment ∧ (at? rest).isSome

/-- The text begins with a parameter between single quotes. -/
def beginsEnclosed : List Char → Bool
  | '\'' :: cs =>
    match at? cs with
    | some (_, '\'' :: _) => true
    | _ => false
  | _ => false

theorem beginsEnclosed_iff {cs : List Char} : beginsEnclosed cs ↔
    ∃ q r, cs = '\'' :: (q.written ++ '\'' :: r) ∧ at? q.written = some (q, []) := by
  constructor
  · intro h
    unfold beginsEnclosed at h
    split at h
    · split at h
      · rename_i q r hq
        exact ⟨q, r, by rw [at?_written hq], at?_self hq⟩
      · cases h
    · cases h
  · rintro ⟨q, r, rfl, hq⟩
    rw [beginsEnclosed, at?_written_append hq]
    rfl

theorem encloses_iff {s : String} : Encloses s ↔ s.toList.tails.any beginsEnclosed := by
  rw [List.any_eq_true]
  constructor
  · rintro ⟨w, hw, before, after, heq⟩
    obtain ⟨q, hq, hwritten⟩ := isParameter_iff.1 hw
    refine ⟨_, (List.mem_tails _ _).2 ⟨before, ?_⟩, beginsEnclosed_iff.2 ⟨q, after, rfl, ?_⟩⟩
    · rw [← heq, hwritten]
      simp
    · rwa [hwritten]
  · rintro ⟨cs, htail, hbegins⟩
    obtain ⟨q, r, rfl, hq⟩ := beginsEnclosed_iff.1 hbegins
    obtain ⟨before, heq⟩ := (List.mem_tails _ _).1 htail
    refine ⟨String.ofList q.written, isParameter_iff.2 ⟨q, ?_, ?_⟩, before, r, ?_⟩
    · rwa [String.toList_ofList]
    · rw [String.toList_ofList]
    · rw [String.toList_ofList, ← heq]
      simp

instance (s : String) : Decidable (Encloses s) := decidable_of_iff _ encloses_iff.symm

/-- A single quote belongs to no parameter. -/
theorem readsOn_quote (m : Mode) (u r : List Char) : ReadsOn m u ('\'' :: r) := by
  rintro before s - - -
  cases hs : at? s with
  | some x => rw [at?_written hs, List.append_assoc, at?_written_append hs, Option.map_some]
  | none =>
    rw [Option.map_none, ← Option.not_isSome_iff_eq_none, Option.isSome_iff_exists]
    rintro ⟨⟨q, rest⟩, hq⟩
    have hquote : '\'' ∉ q.written := isQuote_not_mem_written hq (by decide)
    obtain ⟨v, hwritten, hrest⟩ | ⟨v, rfl, -⟩ := List.append_eq_append_iff.1 (at?_written hq)
    · cases v with
      | nil =>
        rw [List.append_nil] at hwritten
        rw [← hwritten, at?_self hq] at hs
        cases hs
      | cons c v =>
        rw [hwritten, (List.cons.inj hrest).1] at hquote
        simp at hquote
    · rw [at?_written_append hq] at hs
      cases hs

/-- The mode behind a single quote. -/
def Mode.afterQuote : Mode → Mode
  | .code => .quoted '\''
  | .quoted mark => if '\'' = mark then .code else .quoted mark
  | m => m

theorem scan_afterQuote (m : Mode) (r : List Char) : scan m ('\'' :: r) =
    (.plain '\'' :: (scan m.afterQuote r).1, (scan m.afterQuote r).2) := by
  cases m with
  | code => exact scan_code_plain (absurd · (by decide)) (absurd · (by decide)) rfl
  | quoted mark => rw [scan]; rfl
  | lineComment => rw [scan]; rfl
  | blockComment => exact scan_block_plain (absurd · (by decide))

/-- The scan of a text is cut at each single quote. -/
theorem scan_append_quote (m : Mode) (u r : List Char) :
    (scan m (u ++ '\'' :: r)).1 =
      (scan m u).1 ++ .plain '\'' :: (scan (scan m u).2.afterQuote r).1 := by
  rw [scan_append_of_readsOn (readsOn_quote m u r) (by simp), scan_afterQuote]

/-- Pieces that stand for the same characters at the beginning of the same pieces are the same. -/
theorem append_inj_of_written {qs ps' qs' : List Piece} (h : ps ++ ps' = qs ++ qs')
    (hread : AllRead (ps ++ ps')) (hwritten : ps.flatMap Piece.written = qs.flatMap Piece.written) :
    ps = qs ∧ ps' = qs' := by
  have hnil : ∀ {as : List Piece}, AllRead as → as.flatMap Piece.written = [] → as = [] := by
    intro as has heq
    cases as with
    | nil => rfl
    | cons x as =>
      rw [List.flatMap_cons, List.append_eq_nil_iff] at heq
      exact absurd heq.1 (has.written_ne_nil List.mem_cons_self)
  rcases List.append_eq_append_iff.1 h with ⟨as, rfl, rfl⟩ | ⟨as, rfl, rfl⟩
  · rw [List.flatMap_append, List.self_eq_append_right] at hwritten
    rw [hnil hread.append.2.append.1 hwritten]
    simp
  · rw [List.flatMap_append, List.append_right_eq_self] at hwritten
    rw [hnil hread.append.1.append.2 hwritten]
    simp

/-- The mode, if it is one of quotes, is one that a scan can enter. -/
def Mode.IsProper (m : Mode) : Prop := ∀ mark, m = .quoted mark → isQuote mark

theorem Mode.IsProper.afterQuote (h : m.IsProper) : m.afterQuote.IsProper := by
  intro mark heq
  cases m with
  | code =>
    obtain rfl := Mode.quoted.inj heq
    rfl
  | quoted mark' =>
    rw [Mode.afterQuote] at heq
    split at heq
    · cases heq
    · exact h mark heq
  | lineComment => cases heq
  | blockComment => cases heq

theorem scan_isProper (hm : m.IsProper) (cs : List Char) : (scan m cs).2.IsProper := by
  have hplain : ∀ {m : Mode}, (∀ mark, m ≠ .quoted mark) → m.IsProper :=
    fun hne mark heq => absurd heq (hne mark)
  fun_induction scan m cs with
  | case1 mode => exact hm
  | case2 cs ps last hscan ih => simpa [hscan] using ih (hplain (by simp))
  | case3 cs ps last hscan ih => simpa [hscan] using ih (hplain (by simp))
  | case4 c cs hdash hslash p rest hread ps last hscan ih => simpa [hscan] using ih hm
  | case5 c cs hdash hslash hread ps last hscan ih =>
    simp only [dite_eq_ite] at hscan ih
    rw [hscan] at ih
    refine ih ?_
    split
    · rintro mark ⟨⟩
      assumption
    · exact hm
  | case6 mark c cs ps last hscan ih =>
    simp only [dite_eq_ite] at hscan ih
    rw [hscan] at ih
    refine ih ?_
    split
    · exact hplain (by simp)
    · exact hm
  | case7 c cs ps last hscan ih =>
    simp only [dite_eq_ite] at hscan ih
    rw [hscan] at ih
    refine ih ?_
    split
    · exact hplain (by simp)
    · exact hm
  | case8 cs ps last hscan ih => simpa [hscan] using ih (hplain (by simp))
  | case9 c cs hmark ps last hscan ih => simpa [hscan] using ih hm

/-- Inside of quotes and comments no parameter begins. -/
theorem scan_head_plain (hm : m ≠ .code) (cs : List Char) :
    (scan m cs).1 ≠ .parameter p :: ps := by
  fun_cases scan m cs with
  | _ => simp_all

/-- What looks like a parameter but is none, with a parameter directly behind it, goes beyond the
end of a line that ends with a comment. -/
theorem lineComment_of_behind (hm : m.IsProper) {w : List Char} {q : Parameter}
    (hq : at? w = some (q, []))
    (h : (scan m (w ++ rest)).1 = w.map .plain ++ .parameter p :: ps) :
    m = .lineComment ∧ '\n' ∈ w := by
  have hw : w = q.written := by simpa using at?_written hq
  have hcode : m ≠ .code := by
    rintro rfl
    obtain ⟨body, hbody, -⟩ := written_eq hq
    have hat := at?_written_append hq rest
    rw [hw, hbody] at h
    rw [hbody, List.cons_append] at hat
    rw [List.cons_append, scan_parameter hat] at h
    cases h
  by_contra hnot
  have hkeeps : ∀ c ∈ w, m.keeps c := by
    intro c hc
    cases m with
    | code => exact absurd rfl hcode
    | quoted mark =>
      simp only [Mode.keeps, bne_iff_ne]
      rintro rfl
      exact isQuote_not_mem_written hq (hm c rfl) (hw ▸ hc)
    | lineComment =>
      simp only [Mode.keeps, bne_iff_ne]
      rintro rfl
      exact hnot ⟨rfl, hc⟩
    | blockComment =>
      simp only [Mode.keeps, bne_iff_ne]
      rintro rfl
      exact not_mem_written hq (by decide) (by decide) (by decide) (hw ▸ hc)
  rw [scan_keeps hkeeps] at h
  exact scan_head_plain hcode rest (List.append_cancel_left h)

theorem opensNothing_of_isPlain {c : Char} (h : isPlain c) : opensNothing c := by
  simp only [isPlain, isMark, Bool.and_eq_true, Bool.not_eq_true', Bool.or_eq_false_iff,
    beq_eq_false_iff_ne] at h
  obtain ⟨⟨⟨⟨⟨hbrace, -⟩, hdash⟩, hslash⟩, -⟩, hquote⟩ := h
  simp [opensNothing, hbrace, hdash, hslash, hquote]

/-- What looks like a parameter goes beyond the end of a line into code, where it opens nothing. -/
theorem scan_beyond_line {w : List Char} {q : Parameter} (hq : at? w = some (q, []))
    (hline : '\n' ∈ w) (rest : List Char) :
    (scan .lineComment (w ++ rest)).1 = w.map .plain ++ (scan .code rest).1 := by
  obtain ⟨u, v, hsplit, hu⟩ := List.eq_append_cons_of_mem hline
  obtain ⟨body, hbody, hparts⟩ := written_eq hq
  have hw : w = '{' :: '{' :: body := by
    rw [← hbody]
    simpa using at?_written hq
  have hcalm : ∀ c ∈ v, opensNothing c := by
    intro c hc
    have hmem : c ∈ body := by
      rw [hw] at hsplit
      match u, hsplit with
      | [], hsplit => cases (List.cons.inj hsplit).1
      | [_], hsplit => cases (List.cons.inj (List.cons.inj hsplit).2).1
      | _ :: _ :: u, hsplit =>
        rw [(List.cons.inj (List.cons.inj hsplit).2).2]
        exact List.mem_append_right u (List.mem_cons_of_mem _ hc)
    rcases hparts c hmem with rfl | hblank | hname
    · decide
    · exact opensNothing_of_isBlank hblank
    · exact opensNothing_of_isPlain (isPlain_of_isNamePart hname)
  have hkeeps : ∀ c ∈ u, Mode.lineComment.keeps c := by
    intro c hc
    simp only [Mode.keeps, bne_iff_ne]
    rintro rfl
    exact hu hc
  rw [hsplit, List.append_assoc, scan_keeps hkeeps, List.cons_append, scan, if_pos rfl,
    scan_calm hcalm]
  simp

/-- A quote is taken for one that was put in exactly if it stands before what looks like a
parameter but goes beyond the end of a line with a comment. -/
theorem caught_iff_straddles {s : String} (h : ¬Encloses s) :
    (∃ ps', ps' <:+ (scan .code s.toList).1 ∧ Caught ps') ↔ Straddles s := by
  have hproper : ∀ u, (scan .code u).2.IsProper := scan_isProper fun _ heq => by cases heq
  constructor
  · rintro ⟨_, ⟨front, hfront⟩, w, ps', rfl, ⟨q, hq⟩, hhead⟩
    have hw : w = q.written := by simpa using at?_written hq
    have htext : s.toList = front.flatMap Piece.written ++
        '\'' :: (w ++ ps'.flatMap Piece.written) := by
      have hall := scan_written .code s.toList
      rw [← hfront, List.flatMap_append, List.flatMap_cons, List.flatMap_append,
        written_plain] at hall
      exact hall.symm
    have hcut := hfront
    rw [htext, scan_append_quote] at hcut
    have hread := scan_allRead .code s.toList
    rw [← hfront] at hread
    obtain ⟨-, hbehind⟩ := append_inj_of_written hcut hread (scan_written .code _).symm
    have hscan := (List.cons.inj hbehind).2.symm
    match ps', hhead with
    | .plain c :: ps', hhead =>
      obtain rfl : c = '\'' := Option.some.inj hhead
      refine absurd ⟨String.ofList w, isParameter_iff.2 ⟨q, ?_, ?_⟩, ?_⟩ h
      · rwa [String.toList_ofList]
      · rw [String.toList_ofList, hw]
      · rw [String.toList_ofList, htext]
        exact ⟨front.flatMap Piece.written, ps'.flatMap Piece.written, by simp [Piece.written]⟩
    | .parameter p :: ps', hhead =>
      obtain ⟨hmode, hline⟩ := lineComment_of_behind (hproper _).afterQuote hq hscan
      have hcomment : (scan .code (front.flatMap Piece.written)).2 = .lineComment := by
        revert hmode
        cases (scan .code (front.flatMap Piece.written)).2 with
        | lineComment => exact fun _ => rfl
        | quoted mark =>
          rw [Mode.afterQuote]
          split
          · exact fun heq => by cases heq
          · exact fun heq => by cases heq
        | code => exact fun heq => by cases heq
        | blockComment => exact fun heq => by cases heq
      have hp : at? p.written = some (p, []) :=
        scan_allRead .code s.toList p (by rw [← hfront]; simp)
      refine ⟨_, String.ofList w, _, by rw [String.toList_ofList]; exact htext,
        isParameter_iff.2 ⟨q, ?_, ?_⟩, ?_, hcomment, ?_⟩
      · rwa [String.toList_ofList]
      · rw [String.toList_ofList, hw]
      · rwa [String.toList_ofList]
      · have hbegins := at?_written_append hp (ps'.flatMap Piece.written)
        exact Option.isSome_iff_exists.2 ⟨_, hbegins⟩
  · rintro ⟨before, w, rest, htext, hw, hline, hcomment, hbegins⟩
    obtain ⟨q, hq, -⟩ := isParameter_iff.1 hw
    obtain ⟨⟨p, rest'⟩, hp⟩ := Option.isSome_iff_exists.1 hbegins
    obtain ⟨c, cs, rfl⟩ := List.exists_cons_of_ne_nil (l := rest) (by rintro rfl; cases hp)
    refine ⟨.plain '\'' :: (w.toList.map .plain ++ (scan .code (c :: cs)).1), ?_,
      w.toList, _, rfl, ⟨q, hq⟩, ?_⟩
    · rw [htext, scan_append_quote, hcomment, show Mode.lineComment.afterQuote = .lineComment from
        rfl, scan_beyond_line hq hline]
      exact List.suffix_append _ _
    · rw [scan_parameter hp]
      rfl

/-! ## What masking does -/

/-- Masking is exact: the parameters of a text stand one behind the other, and quotes are put around
each of them and nowhere else, so that the masked text has no parameter left and is masked to
itself.  Unmasking gives the text back if no parameter of it was between single quotes before and
none of its own quotes straddles the end of a comment with a parameter behind it. -/
theorem mask_exact (s : String) :
    ((spans s).Pairwise (fun a b => a.stop ≤ b.start) ∧
      (spans s).Forall₂ (Span.Covers s.toList) (occurrences s)) ∧
    ((∀ i ∈ inserted s, (mask s).toList[i]? = some '\'') ∧
      without (inserted s) (mask s).toList = s.toList) ∧
    (occurrences (mask s) = [] ∧ mask (mask s) = mask s) ∧
    (¬Encloses s → (unmask (mask s) = s ↔ ¬Straddles s)) := by
  have hwritten := scan_written .code s.toList
  have hinserted : inserted s = insertedFrom 0 (scan .code s.toList).1 := insertedFrom_eq 0 0 _
  refine ⟨⟨spansFrom_increasing 0 _, ?_⟩, ⟨?_, ?_⟩, ⟨occurrences_mask s, mask_mask s⟩, fun h => ?_⟩
  · have hcovers := spansFrom_covers [] (scan_allRead .code s.toList)
    rwa [List.nil_append, hwritten] at hcovers
  · intro i hi
    rw [hinserted] at hi
    rw [toList_mask]
    exact getElem?_insertedFrom [] hi
  · rw [hinserted, toList_mask, without, withoutFrom_insertedFrom, hwritten]
  · rw [← caught_iff_straddles h, not_exists]
    simp only [not_and]
    rw [← unmaskChars_masked_iff (scan_allRead .code s.toList), hwritten, unmask, toList_mask,
      ← String.toList_inj, String.toList_ofList]

/-- Quotes are put in next to other quotes, braces and parameters, and taken off again. -/
theorem mask_exact_sample :
    let s := "'it''s'||\x7b\x7ba\x7d\x7d\x7b\x7b b \x7d\x7d'\x7b\x7bc\x7d\x7d ' " ++
      "-- '\x7b\x7b\nd\x7d\x7d \x7b\x7be\x7d\x7d"
    ¬Encloses s ∧ (spans s).length = 3 ∧ unmask (mask s) = s ∧ ¬Straddles s := by
  intro s
  have hnot : ¬Encloses s := by decide +kernel
  have hsame : unmask (mask s) = s := by decide +kernel
  exact ⟨hnot, by decide +kernel, hsame, ((mask_exact s).2.2.2 hnot).1 hsame⟩

/-- The quote of a comment goes together with the one in front of the parameter on the next
line. -/
theorem mask_straddled :
    let s := "-- '\x7b\x7b\na\x7d\x7d\x7b\x7bb\x7d\x7d"
    ¬Encloses s ∧ unmask (mask s) ≠ s := by
  decide +kernel

end QueryCanvas.Parameter
