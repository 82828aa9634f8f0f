import Mathlib.Data.List.Find
import Mathlib.Tactic.Common
import QueryCanvas.Proofs.Sql.Quoted

/-!
# Where a piece of a query ends

What the cutter takes off the beginning of a line either takes the end of the line with it, or is
the same whatever comes instead of the line end, if this begins with a space or a parenthesis: no
piece looks further ahead than to such a character.  Texts with the prefix `E` are left aside, since
whether `\u` stands for a character depends on the number of characters that follow, up to the end
of the whole text.
-/

set_option autoImplicit false

namespace QueryCanvas.Sql.Lexer

variable {d : Dialect} {α β : Type}

/-! ## Characters behind a piece -/

/-- The characters that a written query has around its clauses: no piece goes on with one of
them. -/
def isStop (c : Char) : Bool := c == '\n' || c == ' ' || c == ')' || c == '('

/-- The text is at its end or goes on with one of these characters. -/
def Stops (r : List Char) : Prop := ∀ c ∈ r.head?, isStop c

theorem isStop_iff {c : Char} :
    isStop c ↔ c = '\n' ∨ c = ' ' ∨ c = ')' ∨ c = '(' := by simp [isStop, or_assoc]

theorem stops_nil : Stops [] := by simp [Stops]

theorem stops_cons {c : Char} {r : List Char} : Stops (c :: r) ↔ isStop c := by simp [Stops]

theorem stops_lineEnd : Stops ['\n'] := stops_cons.2 (by decide)

/-- A class of characters that ends at each of the four. -/
def Ends (p : Char → Bool) : Prop := ∀ c, isStop c → p c = false

theorem ends_of {p : Char → Bool}
    (hp : p '\n' = false ∧ p ' ' = false ∧ p ')' = false ∧ p '(' = false) : Ends p := by
  intro c hc
  rcases isStop_iff.1 hc with rfl | rfl | rfl | rfl
  exacts [hp.1, hp.2.1, hp.2.2.1, hp.2.2.2]

theorem ends_isDigit : Ends Char.isDigit := ends_of (by decide)

theorem ends_continuesWord : Ends d.continuesWord := ends_of (by cases d <;> decide)

theorem ends_isNumeral : Ends Text.isNumeral :=
  ends_of (by refine ⟨?_, ?_, ?_, ?_⟩ <;> rfl)

theorem ends_extendsOperator : Ends d.extendsOperator := ends_of (by cases d <;> decide)

theorem Ends.takeWhile {p : Char → Bool} (hp : Ends p) (u : List Char) {r : List Char}
    (hr : Stops r) : (u ++ r).takeWhile p = u.takeWhile p := by
  induction u with
  | nil =>
    cases r with
    | nil => rfl
    | cons c r => simp [hp c (stops_cons.1 hr)]
  | cons c u ih => by_cases hc : p c <;> simp [hc, ih]

theorem Ends.dropWhile {p : Char → Bool} (hp : Ends p) (u : List Char) {r : List Char}
    (hr : Stops r) : (u ++ r).dropWhile p = u.dropWhile p ++ r := by
  induction u with
  | nil =>
    cases r with
    | nil => rfl
    | cons c r => simp [hp c (stops_cons.1 hr)]
  | cons c u ih => by_cases hc : p c <;> simp [hc, ih]

theorem head?_append {c : Char} (hc : isStop c = false) (u : List Char) {r : List Char}
    (hr : Stops r) : (u ++ r).head? = some c ↔ u.head? = some c := by
  cases u with
  | nil =>
    refine ⟨fun h => ?_, fun h => by cases h⟩
    have := hr c h
    rw [hc] at this
    cases this
  | cons c' u => exact Iff.rfl

/-- A text without these characters begins a longer text exactly if it begins what stands before
the stop. -/
theorem isPrefixOf_append {w : List Char} (hw : ∀ c ∈ w, isStop c = false) (u : List Char)
    {r : List Char} (hr : Stops r) : w.isPrefixOf (u ++ r) = w.isPrefixOf u := by
  induction w generalizing u with
  | nil => simp
  | cons c w ih =>
    cases u with
    | nil =>
      cases r with
      | nil => rfl
      | cons c' r =>
        have hne : c ≠ c' := by
          rintro rfl
          have := hw c (by simp)
          rw [stops_cons.1 hr] at this
          cases this
        simp [List.isPrefixOf, hne]
    | cons c' u => simp [List.isPrefixOf, ih (fun x hx => hw x (by simp [hx])) u]

/-! ## Readers that are settled -/

/-- Reading can be settled by what stands before the stop: the reader fails at the end of the line
or takes it, or it gives the same whatever follows. -/
def Settled (f : Reader α) (u : List Char) : Prop :=
  (∀ t r, f (u ++ ['\n']) = some (t, r) → r = []) ∨
    ∃ t v, v.length < u.length ∧ ∀ r, Stops r → f (u ++ r) = some (t, v ++ r)

theorem Settled.fails {f : Reader α} {u : List Char} (h : f (u ++ ['\n']) = none) : Settled f u :=
  .inl fun t r hr => by rw [h] at hr; cases hr

theorem Settled.fixed {f : Reader α} {u : List Char} (t : α) (v : List Char)
    (hlen : v.length < u.length) (h : ∀ r, Stops r → f (u ++ r) = some (t, v ++ r)) :
    Settled f u :=
  .inr ⟨t, v, hlen, h⟩

/-- A reader that goes on with another one after some characters. -/
theorem Settled.map {f : Reader α} {g : Reader β} {u v : List Char} (F : α → β)
    (hlen : u.length ≤ v.length)
    (h : ∀ r, Stops r → g (v ++ r) = (f (u ++ r)).map fun x => (F x.1, x.2))
    (hf : Settled f u) : Settled g v := by
  obtain hover | ⟨t, w, hw, hfix⟩ := hf
  · refine .inl fun t r hr => ?_
    rw [h _ stops_lineEnd] at hr
    obtain ⟨⟨x, r'⟩, hx, heq⟩ := Option.map_eq_some_iff.1 hr
    cases heq
    exact hover x r' hx
  · refine .inr ⟨F t, w, by omega, fun r hr => ?_⟩
    rw [h r hr, hfix r hr]
    rfl

/-- Whatever of the results of a reader is refused. -/
theorem Settled.filter {f : Reader α} {u : List Char} (p : α → Bool) (hf : Settled f u) :
    Settled (fun cs => (f cs).filter fun x => p x.1) u := by
  obtain hover | ⟨t, w, hw, hfix⟩ := hf
  · exact .inl fun t r hr => hover t r (Option.filter_eq_some_iff.1 hr).1
  · by_cases ht : p t
    · exact .fixed t w hw fun r hr => by simp [hfix r hr, ht]
    · exact .fails (by simp [hfix _ stops_lineEnd, ht])

/-! ## Texts in quotes and comments -/

theorem body?_settled {close : Char} (hclose : isStop close = false) (escapes : Bool)
    (u : List Char) : Settled (body? d close escapes) u := by
  have hne : '\n' ≠ close := by rintro rfl; simp [isStop] at hclose
  fun_induction body? d close escapes u with
  | case1 =>
    refine .fails ?_
    rw [List.nil_append, body?_plain hne (by simp)]
    rfl
  | case2 c hc c' rest' hc' ih =>
    obtain rfl : c = close := by simpa using hc
    obtain rfl : c' = c := by simpa using hc'
    exact ih.map (c' :: ·) (by simp only [List.length_cons]; omega) fun r _ => body?_double _
  | case3 c hc c' rest' hc' =>
    obtain rfl : c = close := by simpa using hc
    refine .fixed [] (c' :: rest') (by simp) fun r _ => body?_close ?_
    simpa using hc'
  | case4 c hc =>
    obtain rfl : c = close := by simpa using hc
    refine .fixed [] [] (by simp) fun r hr => body?_close fun heq => ?_
    have := hr c heq
    simp [hclose] at this
  | case5 c hc hslash e rest' ih =>
    obtain ⟨rfl, rfl⟩ : c = '\\' ∧ escapes = true := by simpa using hslash
    have hslash : close ≠ '\\' := by rintro rfl; simp at hc
    exact ih.map (backslash d e ++ ·) (by simp only [List.length_cons]; omega)
      fun r _ => body?_escape hslash e _
  | case6 c hc hslash =>
    obtain ⟨rfl, rfl⟩ : c = '\\' ∧ escapes = true := by simpa using hslash
    have hslash : close ≠ '\\' := by rintro rfl; simp at hc
    refine .fails ?_
    rw [List.singleton_append, body?_escape hslash]
    rfl
  | case7 c rest' hc hslash ih =>
    refine ih.map (c :: ·) (by simp) fun r _ => ?_
    rw [List.cons_append, body?_plain (by simpa using hc) (by simpa using hslash)]
    rfl

theorem until?_settled {close : List Char} (hclose : close ≠ [] ∧ ∀ c ∈ close, isStop c = false)
    (u : List Char) : Settled (until? close) u := by
  have hstep : ∀ c rest, until? close (c :: rest) =
      if close.isPrefixOf (c :: rest) then some ([], (c :: rest).drop close.length)
      else prepend c (until? close rest) := fun c rest => by rw [until?]
  induction u with
  | nil =>
    refine .fails ?_
    have : close.isPrefixOf ['\n'] = false := by
      rw [← List.nil_append ['\n'], isPrefixOf_append hclose.2 [] stops_lineEnd]
      cases close with
      | nil => exact absurd rfl hclose.1
      | cons => rfl
    rw [List.nil_append, hstep, this]
    rfl
  | cons c u ih =>
    have hprefix := fun {r} (hr : Stops r) => isPrefixOf_append hclose.2 (c :: u) hr
    by_cases hc : close.isPrefixOf (c :: u)
    · have hle := (List.isPrefixOf_iff_prefix.1 hc).length_le
      have hpos := List.length_pos_iff.2 hclose.1
      refine .fixed [] ((c :: u).drop close.length) (by simp only [List.length_drop]; omega)
        fun r hr => ?_
      rw [List.cons_append, hstep, ← List.cons_append, hprefix hr, if_pos hc,
        List.drop_append_of_le_length hle]
    · refine ih.map (c :: ·) (by simp) fun r hr => ?_
      rw [List.cons_append, hstep, ← List.cons_append, hprefix hr, if_neg hc]
      rfl

theorem skipComment?_settled (depth : Nat) (last : Char) (u : List Char) :
    Settled (fun cs => (skipComment? depth last cs).map fun r => ((none : Option Token), r)) u := by
  fun_induction skipComment? depth last u with
  | case1 depth last => exact .fails (by simp [skipComment?])
  | case2 depth last c rest hopen ih =>
    refine ih.map id (by simp) fun r _ => ?_
    simp [skipComment?, hopen, Function.comp_def]
  | case3 last c rest hopen hclose =>
    refine .fixed none rest (by simp) fun r _ => ?_
    simp only [Bool.not_eq_true] at hopen
    simp [skipComment?, hopen, hclose]
  | case4 last c rest hopen hclose depth ih =>
    refine ih.map id (by simp) fun r _ => ?_
    simp only [Bool.not_eq_true] at hopen
    simp [skipComment?, hopen, hclose, Function.comp_def]
  | case5 depth last c rest hopen hclose ih =>
    refine ih.map id (by simp) fun r _ => ?_
    simp only [Bool.not_eq_true] at hopen hclose
    simp [skipComment?, hopen, hclose, Function.comp_def]

theorem skipLine_cons {c : Char} (hc : c ≠ '\n') (u : List Char) :
    skipLine (c :: u) = skipLine u := by
  simp [skipLine, hc]

theorem skipLine_within {u : List Char} (hu : '\n' ∈ u) (r : List Char) :
    skipLine (u ++ r) = skipLine u ++ r ∧ (skipLine u).length < u.length := by
  induction u with
  | nil => cases hu
  | cons c u ih =>
    by_cases hc : c = '\n'
    · subst hc
      simp [skipLine]
    · have hu : '\n' ∈ u := by simpa [Ne.symm hc] using hu
      rw [List.cons_append, skipLine_cons hc, skipLine_cons hc]
      exact ⟨(ih hu).1, Nat.lt_succ_of_lt (ih hu).2⟩

theorem skipLine_end {u : List Char} (hu : '\n' ∉ u) : skipLine (u ++ ['\n']) = [] := by
  induction u with
  | nil => rfl
  | cons c u ih =>
    simp only [List.mem_cons, not_or] at hu
    rw [List.cons_append, skipLine_cons (Ne.symm hu.1), ih hu.2]

/-! ## Words and numbers -/

/-- A reader that always reads something gives the same whatever follows. -/
def Stable {τ : Type} (g : List Char → τ × List Char) (u : List Char) : Prop :=
  (g u).2.length ≤ u.length ∧ ∀ r, Stops r → g (u ++ r) = ((g u).1, (g u).2 ++ r)

theorem Stable.settled {g : List Char → Token × List Char} {f : Reader (Option Token)}
    {u : List Char} (c : Char) (hg : Stable g u)
    (h : ∀ r, Stops r → f (c :: u ++ r) = token (g (u ++ r))) : Settled f (c :: u) := by
  refine .fixed (some (g u).1) (g u).2 (by have := hg.1; simp only [List.length_cons]; omega)
    fun r hr => ?_
  rw [h r hr, hg.2 r hr]
  rfl

theorem isPart_ends : Ends fun c => c.isDigit || c == '.' := ends_of (by decide)

theorem word_stable (first u : List Char) : Stable (word d first) u := by
  have hlen := (List.dropWhile_sublist d.continuesWord (l := u)).length_le
  have hlen' := (List.dropWhile_sublist (fun c => c.isDigit || c == '.')
    (l := u.dropWhile d.continuesWord)).length_le
  refine ⟨?_, fun r hr => ?_⟩
  · unfold word
    dsimp only
    split <;> dsimp only <;> omega
  · unfold word
    rw [ends_continuesWord.takeWhile u hr, ends_continuesWord.dropWhile u hr]
    dsimp only
    rw [isPart_ends.takeWhile _ hr, isPart_ends.dropWhile _ hr]
    split <;> rfl

theorem exponent_append (u : List Char) {r : List Char} (hr : Stops r) :
    exponent (u ++ r) = exponent u := by
  have hnone : ∀ {r : List Char}, Stops r → r.takeWhile Char.isDigit = [] := fun {r} hr => by
    simpa using ends_isDigit.takeWhile [] hr
  cases u with
  | nil =>
    cases r with
    | nil => rfl
    | cons c r => rcases isStop_iff.1 (stops_cons.1 hr) with rfl | rfl | rfl | rfl <;> rfl
  | cons e u =>
    cases u with
    | nil =>
      cases r with
      | nil => rfl
      | cons c r =>
        have := hnone hr
        rcases isStop_iff.1 (stops_cons.1 hr) with rfl | rfl | rfl | rfl <;> simp [exponent]
    | cons s u =>
      by_cases hplus : s = '+'
      · subst hplus
        simp [exponent, ends_isDigit.takeWhile u hr]
      · by_cases hminus : s = '-'
        · subst hminus
          simp [exponent, ends_isDigit.takeWhile u hr]
        · have := ends_isDigit.takeWhile (s :: u) hr
          rw [List.cons_append] at this
          simp [exponent, hplus, hminus, this]

theorem exponent_length_le (u : List Char) : (exponent u).length ≤ u.length := by
  have hlen := fun v : List Char => (List.takeWhile_sublist Char.isDigit (l := v)).length_le
  rcases u with _ | ⟨e, u⟩
  · simp [exponent]
  · by_cases he : e = 'e' ∨ e = 'E'
    · rcases u with _ | ⟨s, u⟩
      · simp [exponent]
      · by_cases hplus : s = '+'
        · subst hplus
          have := hlen u
          by_cases hd : u.takeWhile Char.isDigit = [] <;> simp [exponent, he, hd]
          omega
        · by_cases hminus : s = '-'
          · subst hminus
            have := hlen u
            by_cases hd : u.takeWhile Char.isDigit = [] <;> simp [exponent, he, hd]
            omega
          · have := hlen (s :: u)
            rw [List.length_cons] at this
            by_cases hd : (s :: u).takeWhile Char.isDigit = [] <;>
              simp [exponent, he, hplus, hminus, hd]
            omega
    · simp [exponent, he]

/-! A number is read in stages: the digits before the point, the point, the digits behind it, and
the rest. -/

/-- What is read behind the digits of a number. -/
def numberEnd (d : Dialect) (digits rest : List Char) : Token × List Char :=
  let power := exponent rest
  let rest := rest.drop power.length
  let tail := if d = .mysql && power.isEmpty then rest.takeWhile d.continuesWord else []
  if !tail.isEmpty then (wordToken (digits ++ tail), rest.drop tail.length)
  else
    let written := String.ofList (digits ++ power)
    match rest with
    | 'L' :: rest => (.number written true, rest)
    | rest => (.number written false, rest)

/-- What is read behind the point of a number. -/
def numberFraction (d : Dialect) (before rest : List Char) : Token × List Char :=
  let digits := before ++ rest.takeWhile Char.isDigit
  let rest := rest.dropWhile Char.isDigit
  if digits = ['.'] then (.mark ".", rest) else numberEnd d digits rest

theorem numberEnd_stable (digits u : List Char) : Stable (numberEnd d digits) u := by
  have hpower := exponent_length_le u
  generalize hrest : u.drop (exponent u).length = rest
  have hrest' : rest.length ≤ u.length := by rw [← hrest, List.length_drop]; omega
  have htail := (List.takeWhile_sublist d.continuesWord (l := rest)).length_le
  refine ⟨?_, fun r hr => ?_⟩
  · unfold numberEnd
    dsimp only
    rw [hrest]
    generalize (if (decide (d = .mysql) && (exponent u).isEmpty) = true then
      rest.takeWhile d.continuesWord else []) = tail
    split
    · rw [List.length_drop]; omega
    · split
      · simp only [List.length_cons] at hrest'
        dsimp only
        omega
      · exact hrest'
  · unfold numberEnd
    dsimp only
    rw [exponent_append u hr, List.drop_append_of_le_length hpower, hrest]
    have hword : ∀ b : Bool, (if b then (rest ++ r).takeWhile d.continuesWord else [])
        = if b then rest.takeWhile d.continuesWord else [] := by
      intro b; rw [ends_continuesWord.takeWhile rest hr]
    rw [hword]
    generalize ht : (if (decide (d = .mysql) && (exponent u).isEmpty) = true then
      rest.takeWhile d.continuesWord else []) = tail
    have hle : tail.length ≤ rest.length := by
      rw [← ht]; split
      · exact htail
      · simp
    split
    · rw [List.drop_append_of_le_length hle]
    · cases rest with
      | nil =>
        cases r with
        | nil => rfl
        | cons c r => rcases isStop_iff.1 (stops_cons.1 hr) with rfl | rfl | rfl | rfl <;> rfl
      | cons c rest =>
        by_cases hL : c = 'L'
        · subst hL; rfl
        · simp [hL]

theorem numberFraction_stable (before u : List Char) : Stable (numberFraction d before) u := by
  have hlen := (List.dropWhile_sublist Char.isDigit (l := u)).length_le
  have hend := numberEnd_stable (d := d) (before ++ u.takeWhile Char.isDigit)
    (u.dropWhile Char.isDigit)
  refine ⟨?_, fun r hr => ?_⟩
  · unfold numberFraction
    dsimp only
    split
    · exact hlen
    · exact Nat.le_trans hend.1 hlen
  · unfold numberFraction
    rw [ends_isDigit.takeWhile u hr, ends_isDigit.dropWhile u hr]
    dsimp only
    split
    · rfl
    · exact hend.2 r hr

theorem isHex_ends : Ends isHex := ends_of (by decide)

/-- A number in stages. -/
theorem number_eq (cs : List Char) : number d cs =
    if cs.takeWhile Char.isDigit = ['0'] ∧ (cs.dropWhile Char.isDigit).head? = some 'x' then
      (.text .hex (String.ofList (((cs.dropWhile Char.isDigit).drop 1).takeWhile isHex)),
        ((cs.dropWhile Char.isDigit).drop 1).dropWhile isHex)
    else if (cs.dropWhile Char.isDigit).head? = some '.' then
      numberFraction d (cs.takeWhile Char.isDigit ++ ['.']) ((cs.dropWhile Char.isDigit).drop 1)
    else numberFraction d (cs.takeWhile Char.isDigit) (cs.dropWhile Char.isDigit) := by
  unfold number
  generalize cs.takeWhile Char.isDigit = whole
  generalize cs.dropWhile Char.isDigit = rest
  by_cases hhex : whole = ['0'] ∧ rest.head? = some 'x'
  · obtain ⟨rfl, hx⟩ := hhex
    obtain ⟨rest, rfl⟩ := List.head?_eq_some_iff.1 hx
    rfl
  · rw [if_neg hhex]
    by_cases hpoint : rest.head? = some '.'
    · obtain ⟨rest, rfl⟩ := List.head?_eq_some_iff.1 hpoint
      rw [if_pos hpoint]
      dsimp only
      split
      · rename_i heq
        cases heq
      · rfl
    · rw [if_neg hpoint]
      dsimp only
      split
      · simp at hhex
      · split
        · simp at hpoint
        · rw [List.append_nil]
          rfl

theorem number_stable (u : List Char) : Stable (number d) u := by
  have hlen := (List.dropWhile_sublist Char.isDigit (l := u)).length_le
  have hhex := (List.dropWhile_sublist isHex (l := (u.dropWhile Char.isDigit).drop 1)).length_le
  rw [List.length_drop] at hhex
  have hdrop : ∀ {c : Char} {r : List Char}, (u.dropWhile Char.isDigit).head? = some c →
      (u.dropWhile Char.isDigit ++ r).drop 1 = (u.dropWhile Char.isDigit).drop 1 ++ r := by
    intro c r h
    obtain ⟨rest, hrest⟩ := List.head?_eq_some_iff.1 h
    rw [hrest]
    rfl
  refine ⟨?_, fun r hr => ?_⟩
  · rw [number_eq]
    split
    · dsimp only
      omega
    · split
      · refine Nat.le_trans (numberFraction_stable _ _).1 ?_
        rw [List.length_drop]
        omega
      · exact Nat.le_trans (numberFraction_stable _ _).1 hlen
  · rw [number_eq, number_eq, ends_isDigit.takeWhile u hr, ends_isDigit.dropWhile u hr]
    simp only [head?_append (c := 'x') rfl _ hr, head?_append (c := '.') rfl _ hr]
    split
    · rename_i h
      rw [hdrop h.2, isHex_ends.takeWhile _ hr, isHex_ends.dropWhile _ hr]
    · split
      · rename_i h
        rw [hdrop h, (numberFraction_stable _ _).2 r hr]
      · exact (numberFraction_stable _ _).2 r hr

/-! ## Marks and placeholders -/

theorem marks_within {m : String × Bool} (hm : m ∈ marks) :
    m.1.toList ≠ [] ∧ ∀ c ∈ m.1.toList.tail, isStop c = false := by
  have hall : (marks.all fun m => !m.1.toList.isEmpty && m.1.toList.tail.all (!isStop ·)) = true :=
    rfl
  simpa using List.all_eq_true.1 hall m hm

theorem mark?_settled (c : Char) (u : List Char) :
    (∀ r, Stops r → mark? d (c :: u ++ r) = none) ∨
      ∃ t v, v.length ≤ u.length ∧ ∀ r, Stops r → mark? d (c :: u ++ r) = some (t, v ++ r) := by
  have hfind : ∀ r, Stops r → marks.find? (fun m => m.1.toList.isPrefixOf (c :: u ++ r))
      = marks.find? fun m => m.1.toList.isPrefixOf (c :: u) := by
    intro r hr
    refine List.find?_congr fun m hm => ?_
    obtain ⟨hne, hwithin⟩ := marks_within hm
    obtain ⟨x, w, hw⟩ := List.exists_cons_of_ne_nil hne
    rw [hw] at hwithin ⊢
    simp only [List.cons_append, List.isPrefixOf, isPrefixOf_append (w := w) hwithin u hr]
  cases hm : marks.find? fun m => m.1.toList.isPrefixOf (c :: u) with
  | none => exact .inl fun r hr => by rw [mark?, hfind r hr, hm]; rfl
  | some m =>
    have hmem := List.mem_of_find?_eq_some hm
    have hpos : 0 < m.1.length := by
      rw [← String.length_toList]
      exact List.length_pos_iff.2 (marks_within hmem).1
    have hle : m.1.length ≤ (c :: u).length := by
      rw [← String.length_toList]
      exact (List.isPrefixOf_iff_prefix.1 (by simpa using List.find?_some hm)).length_le
    generalize hrest : (c :: u).drop m.1.length = rest
    have hrest' : rest.length ≤ u.length := by
      rw [← hrest, List.length_drop, List.length_cons]
      omega
    have hcut : ∀ r, (c :: u ++ r).drop m.1.length = rest ++ r := fun r => by
      rw [List.drop_append_of_le_length hle, hrest]
    have hext : ∀ r, Stops r →
        (if m.2 then (rest ++ r).takeWhile d.extendsOperator else [])
          = if m.2 then rest.takeWhile d.extendsOperator else [] := fun r hr => by
      rw [ends_extendsOperator.takeWhile rest hr]
    have hext' : (if m.2 then rest.takeWhile d.extendsOperator else []).length ≤ rest.length := by
      split
      · exact (List.takeWhile_sublist _).length_le
      · simp
    revert hext hext'
    generalize (if m.2 then rest.takeWhile d.extendsOperator else []) = extension
    intro hext hext'
    have hread : ∀ r, Stops r → mark? d (c :: u ++ r) =
        some (if extension.isEmpty then (.mark (markName m.1), rest ++ r)
          else (.custom (m.1 ++ String.ofList extension), (rest ++ r).drop extension.length)) := by
      intro r hr
      rw [mark?, hfind r hr, hm]
      dsimp only [Option.map_some]
      rw [hcut, hext r hr]
    by_cases hempty : extension.isEmpty
    · exact .inr ⟨_, rest, hrest', fun r hr => by rw [hread r hr, if_pos hempty]⟩
    · refine .inr ⟨.custom (m.1 ++ String.ofList extension), rest.drop extension.length, ?_,
        fun r hr => ?_⟩
      · rw [List.length_drop]
        omega
      · rw [hread r hr, if_neg hempty, List.drop_append_of_le_length hext']

theorem mark?_bind_settled {f : Reader (Option Token)} (c : Char) (u : List Char)
    (h : ∀ r, Stops r → f (c :: u ++ r) = (mark? d (c :: u ++ r)).bind token) :
    Settled f (c :: u) := by
  obtain hnone | ⟨t, v, hv, hfix⟩ := mark?_settled (d := d) c u
  · exact .fails (by rw [h _ stops_lineEnd, hnone _ stops_lineEnd]; rfl)
  · refine .fixed (some t) v (by simp only [List.length_cons]; omega) fun r hr => ?_
    rw [h r hr, hfix r hr]
    rfl

theorem mark?_getD_settled {f : Reader (Option Token)} (c : Char) (u : List Char)
    (h : ∀ r, Stops r → f (c :: u ++ r)
      = token ((mark? d (c :: u ++ r)).getD (.unknown c, u ++ r))) :
    Settled f (c :: u) := by
  obtain hnone | ⟨t, v, hv, hfix⟩ := mark?_settled (d := d) c u
  · exact .fixed (some (.unknown c)) u (by simp) fun r hr => by rw [h r hr, hnone r hr]; rfl
  · refine .fixed (some t) v (by simp only [List.length_cons]; omega) fun r hr => ?_
    rw [h r hr, hfix r hr]
    rfl

theorem textToken_settled {read : Reader (List Char)} {f : Reader (Option Token)} (kind : TextKind)
    (c : Char) {u : List Char} (hread : Settled read u)
    (h : ∀ r, Stops r → f (c :: u ++ r) = textToken kind (read (u ++ r))) :
    Settled f (c :: u) :=
  hread.map (fun cs => some (.text kind (String.ofList cs))) (by simp) h

def isTag (c : Char) : Bool := Text.isLetter c || Text.isNumeral c || c.isDigit || c == '_'

theorem isTag_ends : Ends isTag := by
  have hletter : Ends Text.isLetter := ends_of (by decide)
  intro c hc
  rw [isTag, hletter c hc, ends_isNumeral c hc, ends_isDigit c hc]
  rcases isStop_iff.1 hc with rfl | rfl | rfl | rfl <;> rfl

theorem dollar?_tag {cs : List Char} (h : cs.head? ≠ some '$') :
    dollar? cs = match cs.dropWhile isTag with
      | '$' :: rest => textToken (.dollar (String.ofList (cs.takeWhile isTag)))
          (until? ('$' :: cs.takeWhile isTag ++ ['$']) rest)
      | rest => token (.placeholder (String.ofList ('$' :: cs.takeWhile isTag)), rest) := by
  unfold dollar?
  split
  · simp at h
  · rfl

theorem dollar?_settled {f : Reader (Option Token)} (u : List Char)
    (h : ∀ r, Stops r → f ('$' :: u ++ r) = dollar? (u ++ r)) : Settled f ('$' :: u) := by
  by_cases hu : u.head? = some '$'
  · obtain ⟨u, rfl⟩ := List.head?_eq_some_iff.1 hu
    have hclose : ['$', '$'] ≠ [] ∧ ∀ c ∈ ['$', '$'], isStop c = false := by simp [isStop]
    refine (until?_settled hclose u).map
      (fun cs => some (.text (.dollar "") (String.ofList cs)))
      (by simp only [List.length_cons]; omega) fun r hr => ?_
    rw [h r hr]
    rfl
  · have htag : ∀ c ∈ u.takeWhile isTag, isStop c = false := by
      intro c hc
      by_contra hstop
      have := isTag_ends c (by simpa using hstop)
      rw [List.all_eq_true.1 (List.all_takeWhile) c hc] at this
      cases this
    have hlen := (List.dropWhile_sublist isTag (l := u)).length_le
    have hread : ∀ r, Stops r → f ('$' :: u ++ r) = _ := fun r hr => by
      rw [h r hr, dollar?_tag (fun hc => hu ((head?_append rfl u hr).1 hc)),
        isTag_ends.takeWhile u hr, isTag_ends.dropWhile u hr]
    by_cases hrest : (u.dropWhile isTag).head? = some '$'
    · obtain ⟨rest, hrest⟩ := List.head?_eq_some_iff.1 hrest
      rw [hrest] at hread hlen
      have hclose : ∀ c ∈ '$' :: u.takeWhile isTag ++ ['$'], isStop c = false := by
        intro c hc
        rcases List.mem_append.1 hc with hc | hc
        · rcases List.mem_cons.1 hc with rfl | hc
          · rfl
          · exact htag c hc
        · rw [List.mem_singleton.1 hc]
          rfl
      exact (until?_settled ⟨by simp, hclose⟩ rest).map
        (fun cs => some (.text (.dollar (String.ofList (u.takeWhile isTag))) (String.ofList cs)))
        (by simp only [List.length_cons] at hlen ⊢; omega) hread
    · refine .fixed (some (.placeholder (String.ofList ('$' :: u.takeWhile isTag))))
        (u.dropWhile isTag) (by simp only [List.length_cons]; omega) fun r hr => ?_
      rw [hread r hr]
      split
      · rename_i heq
        refine absurd ((head?_append rfl _ hr).1 ?_) hrest
        rw [heq]
        rfl
      · rfl

theorem question_stable (u : List Char) : Stable (question .generic) u := by
  have hends : Ends fun c => c.isDigit || Text.isNumeral c := fun c hc => by
    show (c.isDigit || Text.isNumeral c) = false
    rw [ends_isDigit c hc, ends_isNumeral c hc]
    rfl
  have hlen := (List.takeWhile_sublist (fun c => c.isDigit || Text.isNumeral c) (l := u)).length_le
  refine ⟨?_, fun r hr => ?_⟩
  · simp only [question, reduceCtorEq, if_false, List.length_drop]
    omega
  · simp only [question, reduceCtorEq, if_false]
    rw [hends.takeWhile u hr, List.drop_append_of_le_length hlen]

/-! ## One step -/

theorem number_length_lt {c : Char} (hc : c.isDigit ∨ c = '.') (u : List Char) :
    (number d (c :: u)).2.length < (c :: u).length := by
  rw [List.length_cons, Nat.lt_succ_iff, number_eq]
  rcases hc with hc | rfl
  · have hlen := (List.dropWhile_sublist Char.isDigit (l := u)).length_le
    have hhex := (List.dropWhile_sublist isHex
      (l := (u.dropWhile Char.isDigit).drop 1)).length_le
    rw [List.length_drop] at hhex
    simp only [List.dropWhile_cons, hc, if_true]
    split
    · dsimp only
      omega
    · split
      · refine Nat.le_trans (numberFraction_stable _ _).1 ?_
        rw [List.length_drop]
        omega
      · exact Nat.le_trans (numberFraction_stable _ _).1 hlen
  · exact (numberFraction_stable ['.'] u).1

/-- What begins with a character that begins nothing longer by itself. -/
theorem sign?_plain {c : Char} {rest : List Char} (hc : c ∉ ['\'', '?', '#', '@'])
    (hdash : c = '-' → rest.head? ≠ some '-')
    (hslash : c = '/' → rest.head? ≠ some '*' ∧ rest.head? ≠ some '/') :
    sign? d c rest =
      if c.isDigit || c == '.' then token (number d (c :: rest))
      else if d.startsWord c && c ≠ '@' then token (word d [c] rest)
      else if c == '$' then dollar? rest
      else token ((mark? d (c :: rest)).getD (.unknown c, rest)) := by
  unfold sign?
  split
  · simp at hdash
  · simp at hslash
  · simp at hslash
  all_goals simp_all

theorem sign?_plain_settled {f : Reader (Option Token)} {c : Char} {u : List Char}
    (hc : c ∉ ['\'', '?', '#', '@']) (hdash : c = '-' → u.head? ≠ some '-')
    (hslash : c = '/' → u.head? ≠ some '*' ∧ u.head? ≠ some '/')
    (h : ∀ r, Stops r → f (c :: u ++ r) = sign? d c (u ++ r)) : Settled f (c :: u) := by
  have hread : ∀ r, Stops r → f (c :: u ++ r) = _ := fun r hr => by
    rw [h r hr, sign?_plain hc (fun hc' => by rw [Ne, head?_append rfl u hr]; exact hdash hc')
      (fun hc' => by
        rw [Ne, Ne, head?_append rfl u hr, head?_append rfl u hr]; exact hslash hc')]
  by_cases hnumber : (c.isDigit || c == '.') = true
  · simp only [hnumber, if_true] at hread
    refine .fixed (some (number d (c :: u)).1) (number d (c :: u)).2
      (number_length_lt (by simpa using hnumber) u) fun r hr => ?_
    rw [hread r hr, ← List.cons_append, (number_stable (c :: u)).2 r hr]
    rfl
  · simp only [hnumber] at hread
    by_cases hword : (d.startsWord c && c ≠ '@') = true
    · simp only [hword, if_true] at hread
      exact (word_stable [c] u).settled c hread
    · simp only [hword] at hread
      by_cases hdollar : (c == '$') = true
      · simp only [hdollar, if_true] at hread
        obtain rfl : c = '$' := by simpa using hdollar
        exact dollar?_settled u hread
      · simp only [hdollar] at hread
        exact mark?_getD_settled c u hread

theorem lineComment_settled {f : Reader (Option Token)} (c c' : Char) (u : List Char)
    (h : ∀ r, Stops r → f (c :: c' :: u ++ r) = some (none, skipLine (u ++ r))) :
    Settled f (c :: c' :: u) := by
  by_cases hu : '\n' ∈ u
  · refine .fixed none (skipLine u) ?_ fun r hr => ?_
    · have := (skipLine_within hu []).2
      simp only [List.length_cons]
      omega
    · rw [h r hr, (skipLine_within hu r).1]
  · refine .inl fun t r hr => ?_
    rw [h _ stops_lineEnd, skipLine_end hu] at hr
    cases hr
    rfl

theorem word_settled {f : Reader (Option Token)} (c c' : Char) (first u : List Char)
    (h : ∀ r, Stops r → f (c :: c' :: u ++ r) = token (word d first (u ++ r))) :
    Settled f (c :: c' :: u) := by
  have hword := word_stable (d := d) first u
  refine .fixed (some (word d first u).1) (word d first u).2
    (by have := hword.1; simp only [List.length_cons]; omega) fun r hr => ?_
  rw [h r hr, hword.2 r hr]
  rfl

/-- A word that begins with the end of the line takes it. -/
theorem word_takes_lineEnd {f : Reader (Option Token)} (first : List Char) {u : List Char}
    (h : f (u ++ ['\n']) = token (word d first [])) : Settled f u := by
  refine .inl fun t r hr => ?_
  rw [h] at hr
  simp only [word, List.takeWhile_nil, List.dropWhile_nil, List.append_nil, token] at hr
  split at hr <;> cases hr <;> rfl

theorem sign?_hash_settled {f : Reader (Option Token)} (u : List Char)
    (h : ∀ r, Stops r → f ('#' :: u ++ r) = sign? .generic '#' (u ++ r)) :
    Settled f ('#' :: u) := by
  cases u with
  | nil => exact word_takes_lineEnd ['#', '\n'] (h _ stops_lineEnd)
  | cons next u =>
    have hread : ∀ r, Stops r → f ('#' :: next :: u ++ r) =
        if next ≠ '-' && next ≠ '>' && startsSigned .generic '#' next then
          token (word .generic ['#', next] (u ++ r))
        else (mark? .generic ('#' :: next :: u ++ r)).bind token := h
    by_cases hword : (next ≠ '-' && next ≠ '>' && startsSigned .generic '#' next) = true
    · simp only [hword, if_true] at hread
      exact word_settled '#' next _ u hread
    · simp only [hword] at hread
      exact mark?_bind_settled '#' (next :: u) hread

theorem sign?_at_settled {f : Reader (Option Token)} (u : List Char)
    (h : ∀ r, Stops r → f ('@' :: u ++ r) = sign? .generic '@' (u ++ r)) :
    Settled f ('@' :: u) := by
  rcases u with _ | ⟨next, u⟩
  · exact word_takes_lineEnd ['@', '\n'] (h _ stops_lineEnd)
  by_cases hat : next = '@'
  · subst hat
    rcases u with _ | ⟨next, u⟩
    · exact word_takes_lineEnd ['@', '@', '\n'] (h _ stops_lineEnd)
    · have hread : ∀ r, Stops r → f ('@' :: '@' :: next :: u ++ r) =
          if Dialect.generic.startsWord '@' && next ≠ ' ' then
            token (word .generic ['@', '@', next] (u ++ r))
          else token (.mark "@@", next :: u ++ r) := h
      by_cases hword : (Dialect.generic.startsWord '@' && next ≠ ' ') = true
      · simp only [hword, if_true] at hread
        have hword := word_stable (d := .generic) ['@', '@', next] u
        refine .fixed (some (word .generic ['@', '@', next] u).1)
          (word .generic ['@', '@', next] u).2
          (by have := hword.1; simp only [List.length_cons]; omega) fun r hr => ?_
        rw [hread r hr, hword.2 r hr]
        rfl
      · simp only [hword] at hread
        exact .fixed (some (.mark "@@")) (next :: u) (by simp) hread
  · have hread : ∀ r, Stops r → f ('@' :: next :: u ++ r) =
        if next ≠ '>' && next ≠ '?' && next ≠ '@' && startsSigned .generic '@' next then
          token (word .generic ['@', next] (u ++ r))
        else (mark? .generic ('@' :: next :: u ++ r)).bind token := by
      intro r hr
      rw [h r hr, List.cons_append]
      unfold sign?
      split
      all_goals simp_all
    by_cases hword : (next ≠ '>' && next ≠ '?' && next ≠ '@' && startsSigned .generic '@' next)
        = true
    · simp only [hword, if_true] at hread
      exact word_settled '@' next _ u hread
    · simp only [hword] at hread
      exact mark?_bind_settled '@' (next :: u) hread

theorem sign?_settled {f : Reader (Option Token)} (c : Char) (u : List Char)
    (h : ∀ r, Stops r → f (c :: u ++ r) = sign? .generic c (u ++ r)) : Settled f (c :: u) := by
  by_cases hdash : c = '-' ∧ u.head? = some '-'
  · obtain ⟨rfl, hu⟩ := hdash
    obtain ⟨u, rfl⟩ := List.head?_eq_some_iff.1 hu
    exact lineComment_settled '-' '-' u h
  by_cases hcomment : c = '/' ∧ u.head? = some '*'
  · obtain ⟨rfl, hu⟩ := hcomment
    obtain ⟨u, rfl⟩ := List.head?_eq_some_iff.1 hu
    exact (skipComment?_settled 0 ' ' u).map id (by simp only [List.length_cons]; omega)
      fun r hr => by
        rw [h r hr, Option.map_map]
        rfl
  by_cases hslash : c = '/' ∧ u.head? = some '/'
  · obtain ⟨rfl, hu⟩ := hslash
    obtain ⟨u, rfl⟩ := List.head?_eq_some_iff.1 hu
    exact .fixed (some (.mark "//")) u (by simp only [List.length_cons]; omega) h
  by_cases hc : c ∈ ['\'', '?', '#', '@']
  · simp only [List.mem_cons, List.not_mem_nil, or_false] at hc
    rcases hc with rfl | rfl | rfl | rfl
    · exact textToken_settled .plain '\'' (body?_settled rfl _ u) h
    · exact (question_stable u).settled '?' h
    · exact sign?_hash_settled u h
    · exact sign?_at_settled u h
  · exact sign?_plain_settled hc (fun hc' hu => hdash ⟨hc', hu⟩)
      (fun hc' => ⟨fun hu => hcomment ⟨hc', hu⟩, fun hu => hslash ⟨hc', hu⟩⟩) h

/-- Reads what has no prefix. -/
def unprefixed? (d : Dialect) (c : Char) (rest : List Char) : Option (Option Token × List Char) :=
  if d.quotesWord c then
    (body? d (closingMark c) false rest).map fun r =>
      (some (.word ⟨String.ofList r.1, some c⟩), r.2)
  else if c == '"' then textToken .doubleQuoted (body? d '"' d.hasBackslash rest)
  else if Text.isBlank c && !d.startsWord c then some (none, rest)
  else sign? d c rest

theorem unprefixed?_settled {f : Reader (Option Token)} (c : Char) (u : List Char)
    (h : ∀ r, Stops r → f (c :: u ++ r) = unprefixed? .generic c (u ++ r)) :
    Settled f (c :: u) := by
  by_cases hquote : Dialect.generic.quotesWord c
  · have hclose : isStop (closingMark c) = false := by
      simp only [Dialect.quotesWord, Bool.or_eq_true, beq_iff_eq] at hquote
      rcases hquote with rfl | rfl <;> rfl
    refine (body?_settled (d := .generic) hclose false u).map
      (fun cs => some (.word ⟨String.ofList cs, some c⟩)) (by simp) fun r hr => ?_
    rw [h r hr, unprefixed?, if_pos hquote]
  by_cases hdouble : (c == '"') = true
  · obtain rfl : c = '"' := by simpa using hdouble
    exact absurd rfl hquote
  by_cases hblank : (Text.isBlank c && !Dialect.generic.startsWord c) = true
  · refine .fixed none u (by simp) fun r hr => ?_
    rw [h r hr, unprefixed?, if_neg hquote, if_neg hdouble, if_pos hblank]
  · refine sign?_settled c u fun r hr => ?_
    rw [h r hr, unprefixed?, if_neg hquote, if_neg hdouble, if_neg hblank]

theorem step?_unprefixed {c : Char} {rest : List Char} (h : prefixed? d (c :: rest) = none) :
    step? d (c :: rest) = unprefixed? d c rest := by
  rw [step?, h]
  rfl

/-- The step, refusing texts with the prefixes `E` and `U&`. -/
def plainStep? (d : Dialect) : Reader (Option Token) := fun cs =>
  (step? d cs).filter fun x => x.1.all fun t => match t with
    | .text .escaped _ | .text .unicode _ => false
    | _ => true

theorem plainStep?_eq_some {cs rest : List Char} {t : Option Token}
    (h : plainStep? d cs = some (t, rest)) : step? d cs = some (t, rest) :=
  (Option.filter_eq_some_iff.1 h).1

theorem step?_textToken_settled {c : Char} {u v : List Char} (kind : TextKind)
    {read : Reader (List Char)} (hread : Settled read v) (hlen : v.length ≤ (c :: u).length)
    (h : ∀ r, Stops r → prefixed? d (c :: u ++ r) = some (textToken kind (read (v ++ r)))) :
    Settled (step? d) (c :: u) := by
  refine hread.map (fun cs => some (.text kind (String.ofList cs))) hlen fun r hr => ?_
  rw [List.cons_append, step?, ← List.cons_append, h r hr]
  rfl

theorem plainStep?_unprefixed_settled {c : Char} {u : List Char}
    (h : ∀ r, Stops r → prefixed? .generic (c :: u ++ r) = none) :
    Settled (plainStep? .generic) (c :: u) :=
  (unprefixed?_settled (f := step? .generic) c u fun r hr => step?_unprefixed (h r hr)).filter _

theorem plainStep?_quote_settled (c : Char) (u : List Char) :
    Settled (plainStep? .generic) (c :: '\'' :: u) := by
  have hbody := fun escapes =>
    body?_settled (d := .generic) (show isStop '\'' = false from rfl) escapes u
  have hlen : u.length ≤ (c :: '\'' :: u).length := by simp only [List.length_cons]; omega
  by_cases hn : (c == 'n' || c == 'N') = true
  · exact (step?_textToken_settled .national (hbody false) hlen
      fun r _ => by simp only [List.cons_append, prefixed?, hn, if_true]; rfl).filter _
  by_cases he : (c == 'e' || c == 'E') = true
  · refine .fails ?_
    have hstep : step? .generic (c :: '\'' :: u ++ ['\n'])
        = textToken .escaped (escapedBody? (u ++ ['\n'])) := by
      simp only [List.cons_append, step?, prefixed?, hn, he, if_true]
      rfl
    rw [plainStep?, hstep, textToken]
    cases escapedBody? (u ++ ['\n']) <;> rfl
  by_cases hx : (c == 'x' || c == 'X') = true
  · exact (step?_textToken_settled .hex (hbody _) hlen
      fun r _ => by simp only [List.cons_append, prefixed?, hn, he, hx, if_true]; rfl).filter _
  by_cases hb : (c == 'b' || c == 'B') = true
  · exact (step?_textToken_settled .bytes (hbody _) hlen
      fun r _ => by simp [prefixed?, hasByteTexts, hn, he, hx, hb]; rfl).filter _
  by_cases hr : (c == 'r' || c == 'R') = true
  · exact (step?_textToken_settled .raw (hbody _) hlen
      fun r _ => by simp [prefixed?, hn, he, hx, hb, hr]; rfl).filter _
  · exact plainStep?_unprefixed_settled fun r _ => by
      simp only [Bool.not_eq_true] at hn he hx hb hr
      simp [prefixed?, hn, he, hx, hb, hr]

theorem plainStep?_doubleQuote_settled (c : Char) (u : List Char) :
    Settled (plainStep? .generic) (c :: '"' :: u) := by
  have hbody := fun escapes =>
    body?_settled (d := .generic) (show isStop '"' = false from rfl) escapes u
  have hlen : u.length ≤ (c :: '"' :: u).length := by simp only [List.length_cons]; omega
  by_cases hb : (c == 'b' || c == 'B') = true
  · exact (step?_textToken_settled .doubleBytes (hbody _) hlen
      fun r _ => by simp [prefixed?, hasByteTexts, hb]; rfl).filter _
  by_cases hr : (c == 'r' || c == 'R') = true
  · exact (step?_textToken_settled .doubleRaw (hbody _) hlen
      fun r _ => by simp [prefixed?, hb, hr]; rfl).filter _
  · exact plainStep?_unprefixed_settled fun r _ => by
      simp only [Bool.not_eq_true] at hb hr
      simp [prefixed?, hb, hr]

theorem plainStep?_ampersand_settled (c : Char) (u : List Char) :
    Settled (plainStep? .generic) (c :: '&' :: '\'' :: u) := by
  by_cases hc : (c == 'u' || c == 'U') = true
  · refine .fails ?_
    have hstep : step? .generic (c :: '&' :: '\'' :: u ++ ['\n'])
        = textToken .unicode (unicodeBody? (u ++ ['\n'])) := by
      simp [step?, prefixed?, hasUnicodeTexts, hc]
    rw [plainStep?, hstep, textToken]
    cases unicodeBody? (u ++ ['\n']) <;> rfl
  · exact plainStep?_unprefixed_settled fun r _ => by
      simp only [Bool.not_eq_true] at hc
      simp [prefixed?, hc]

/-- **One step over a line**: it fails, or takes the end of the line, or reads a text with the
prefix `E` or `U&`, or else it is the same whatever follows the line. -/
theorem plainStep?_settled (c : Char) (u : List Char) :
    Settled (plainStep? .generic) (c :: u) := by
  by_cases hquote : u.head? = some '\''
  · obtain ⟨u, rfl⟩ := List.head?_eq_some_iff.1 hquote
    exact plainStep?_quote_settled c u
  by_cases hdouble : u.head? = some '"'
  · obtain ⟨u, rfl⟩ := List.head?_eq_some_iff.1 hdouble
    exact plainStep?_doubleQuote_settled c u
  by_cases hamp : u.head? = some '&' ∧ u.tail.head? = some '\''
  · obtain ⟨u, rfl⟩ := List.head?_eq_some_iff.1 hamp.1
    obtain ⟨u, rfl⟩ := List.head?_eq_some_iff.1 hamp.2
    exact plainStep?_ampersand_settled c u
  -- No prefix: what follows the line could not complete one either.
  refine plainStep?_unprefixed_settled fun r hr => ?_
  have hquote' := mt (head?_append (c := '\'') rfl u hr).1 hquote
  have hdouble' := mt (head?_append (c := '"') rfl u hr).1 hdouble
  have hamp' : ∀ w, u ++ r ≠ '&' :: '\'' :: w := by
    intro w hw
    have hhead : u.head? = some '&' := (head?_append rfl u hr).1 (by rw [hw]; rfl)
    obtain ⟨u, rfl⟩ := List.head?_eq_some_iff.1 hhead
    have hnext : u ++ r = '\'' :: w := (List.cons.inj hw).2
    exact hamp ⟨rfl, (head?_append rfl u hr).1 (by rw [hnext]; rfl)⟩
  rw [List.cons_append]
  unfold prefixed?
  split
  · rename_i heq
    exact absurd (by rw [(List.cons.inj heq).2]; rfl) hquote'
  · rename_i heq
    exact absurd (by rw [(List.cons.inj heq).2]; rfl) hdouble'
  · rename_i heq
    exact absurd (List.cons.inj heq).2 (hamp' _)
  · rfl

end QueryCanvas.Sql.Lexer
