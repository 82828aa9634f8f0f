import QueryCanvas.Proofs.Sql.PieceEnds
import QueryCanvas.Proofs.Sql.Scanning

/-!
# Lines that stand alone

A line of a query is whole if it can be read without what follows it: it ends outside of quotes,
comments and parameters, and no piece takes the line end.  Such a line gives the same pieces
wherever it stands, whether a line end, a space or a parenthesis comes next.
-/

set_option autoImplicit false

namespace QueryCanvas.Sql

open Parameter (scan isOpen Follows scan_append scan_code_plain)

/-! ## Pieces of a text -/

namespace Lexer

variable {d : Dialect}

/-- The text is cut into these pieces, however many steps are allowed beyond its length; it is not
cut at all if there are none. -/
def CutInto (d : Dialect) (cs : List Char) (ts : Option (List Token)) : Prop :=
  ∀ n, cs.length ≤ n → tokens? d n cs = ts

theorem cutInto_nil : CutInto d [] (some []) := fun n _ => by rw [tokens?]

theorem CutInto.step {cs rest : List Char} {t : Option Token} {ts : Option (List Token)}
    (hrest : CutInto d rest ts) (hstep : step? d cs = some (t, rest))
    (hlen : rest.length < cs.length) : CutInto d cs (ts.map (t.toList ++ ·)) := by
  intro n hn
  cases cs with
  | nil => cases hlen
  | cons c cs =>
    obtain ⟨n, rfl⟩ := Nat.exists_eq_succ_of_ne_zero (n := n) (by
      rintro rfl
      simp at hn)
    have hread := hrest n (by simp only [List.length_cons] at hn hlen; omega)
    simp only [tokens?, hstep, hread]

theorem CutInto.tokenize? {s : String} {ts : Option (List Token)} (h : CutInto d s.toList ts) :
    Sql.tokenize? d s = ts :=
  h _ (by rw [String.length_toList])

/-- The pieces of a line, up to the line end; none if a piece takes the line end, or if there is a
text with the prefix `E` or `U&`.  The first argument bounds the number of steps. -/
def linePieces? : Nat → List Char → Option (List Token)
  | 0, _ => none
  | n + 1, cs =>
    if cs = ['\n'] then some []
    else (plainStep? .generic cs).bind fun x => (linePieces? n x.2).map (x.1.toList ++ ·)

/-- The pieces of a line are the same whatever follows it. -/
theorem CutInto.line {n : Nat} {u r : List Char} {ts : List Token} {ts' : Option (List Token)}
    (hline : linePieces? n (u ++ ['\n']) = some ts) (hr : Stops r)
    (h : CutInto .generic r ts') : CutInto .generic (u ++ r) (ts'.map (ts ++ ·)) := by
  induction n generalizing u ts with
  | zero => cases hline
  | succ n ih =>
    rw [linePieces?] at hline
    cases u with
    | nil =>
      obtain rfl : [] = ts := by simpa using hline
      simpa using h
    | cons c u =>
      rw [if_neg (by simp)] at hline
      obtain ⟨⟨t, rest⟩, hstep, hrest⟩ := Option.bind_eq_some_iff.1 hline
      obtain ⟨ts₁, hts₁, rfl⟩ := Option.map_eq_some_iff.1 hrest
      obtain hover | ⟨t', v, hv, hfix⟩ := plainStep?_settled c u
      · -- The line end has been taken, so nothing is left of the line.
        obtain rfl := hover t rest hstep
        cases n with
        | zero => cases hts₁
        | succ n => simp [linePieces?, plainStep?, step?] at hts₁
      · obtain ⟨rfl, rfl⟩ : t' = t ∧ v ++ ['\n'] = rest := by
          have := (hfix _ stops_lineEnd).symm.trans hstep
          simpa using this
        have := (ih hts₁).step (plainStep?_eq_some (hfix r hr)) (by
          simp only [List.length_append]
          omega)
        simpa [Option.map_map, Function.comp_def, List.append_assoc] using this

end Lexer

open Lexer

/-! ## Whole lines -/

/-- The characters of a text whose parameters stand between single quotes. -/
def maskedChars (cs : List Char) : List Char := (scan .code cs).1.flatMap Parameter.Piece.masked

theorem maskedChars_nil : maskedChars [] = [] := by
  rw [maskedChars, scan]
  rfl

theorem toList_mask (s : String) : (Parameter.mask s).toList = maskedChars s.toList := by
  rw [Parameter.mask, String.toList_ofList]
  rfl

/-- A line that can be read without what follows it. -/
structure IsWhole (line : List Char) : Prop where
  /-- It ends outside of quotes and comments. -/
  ends_in_code : (scan .code line).2 = .code
  /-- It leaves no parameter open. -/
  closed : ∀ s ∈ line.tails, isOpen s = false
  /-- No piece takes the line end. -/
  cut : (linePieces? ((maskedChars line).length + 1) (maskedChars line ++ ['\n'])).isSome

instance (line : List Char) : Decidable (IsWhole line) :=
  decidable_of_iff ((scan .code line).2 = .code ∧ (∀ s ∈ line.tails, isOpen s = false) ∧
      (linePieces? ((maskedChars line).length + 1) (maskedChars line ++ ['\n'])).isSome)
    ⟨fun h => ⟨h.1, h.2.1, h.2.2⟩, fun h => ⟨h.1, h.2, h.3⟩⟩

theorem maskedChars_stop {c : Char} (hc : isStop c) (r : List Char) :
    maskedChars (c :: r) = c :: maskedChars r := by
  have hat : Parameter.at? (c :: r) = none := by
    rcases isStop_iff.1 hc with rfl | rfl | rfl | rfl <;> rfl
  have hquote : Parameter.isQuote c = false := by
    rcases isStop_iff.1 hc with rfl | rfl | rfl | rfl <;> rfl
  rw [maskedChars, scan_code_plain (by rintro rfl; simp [isStop] at hc)
    (by rintro rfl; simp [isStop] at hc) hat, hquote]
  rfl

theorem stops_maskedChars {r : List Char} (hr : Stops r) : Stops (maskedChars r) := by
  cases r with
  | nil =>
    rw [maskedChars_nil]
    exact stops_nil
  | cons c r =>
    rw [maskedChars_stop (stops_cons.1 hr)]
    exact stops_cons.2 (stops_cons.1 hr)

/-- None of the four is part of a mark of comments or parameters. -/
theorem follows_of_stops {r : List Char} (hr : Stops r) : Follows r := by
  intro c hc
  rcases isStop_iff.1 (hr c hc) with rfl | rfl | rfl | rfl <;> rfl

/-- What ends outside of quotes and comments and leaves no parameter open is masked by itself. -/
theorem maskedChars_append {u r : List Char} (hend : (scan .code u).2 = .code)
    (hclosed : ∀ s ∈ u.tails, isOpen s = false) (hr : Stops r) :
    maskedChars (u ++ r) = maskedChars u ++ maskedChars r := by
  rw [maskedChars, scan_append .code (fun s hs => hclosed s ((List.mem_tails _ _).2 hs))
    (follows_of_stops hr), hend, List.flatMap_append]
  rfl

/-- The masked text is cut into these pieces. -/
def ReadsAs (cs : List Char) (ts : Option (List Token)) : Prop :=
  CutInto .generic (maskedChars cs) ts

/-- **A whole line gives the same pieces wherever it stands.** -/
theorem IsWhole.readsAs {line : List Char} (h : IsWhole line) :
    ∃ ts, ∀ r ts', Stops r → ReadsAs r ts' → ReadsAs (line ++ r) (ts'.map (ts ++ ·)) := by
  obtain ⟨ts, hts⟩ := Option.isSome_iff_exists.1 h.cut
  refine ⟨ts, fun r ts' hr hread => ?_⟩
  rw [ReadsAs, maskedChars_append h.ends_in_code h.closed hr]
  exact CutInto.line hts (stops_maskedChars hr) hread

theorem ReadsAs.nil : ReadsAs [] (some []) := by
  rw [ReadsAs, maskedChars_nil]
  exact cutInto_nil

theorem prefixed?_none {d : Dialect} {c : Char}
    (hc : c ∉ ['n', 'N', 'e', 'E', 'x', 'X', 'b', 'B', 'r', 'R', 'u', 'U']) (rest : List Char) :
    prefixed? d (c :: rest) = none := by
  unfold prefixed?
  split
  · rename_i heq
    obtain ⟨rfl, rfl⟩ := List.cons.inj heq
    simp_all
  · rename_i heq
    obtain ⟨rfl, rfl⟩ := List.cons.inj heq
    simp_all
  · rename_i heq
    obtain ⟨rfl, rfl⟩ := List.cons.inj heq
    simp_all
  · rfl

theorem step?_stop {c : Char} (hc : isStop c) (r : List Char) :
    step? .generic (c :: r) = unprefixed? .generic c r := by
  exact step?_unprefixed (prefixed?_none (by
    rcases isStop_iff.1 hc with rfl | rfl | rfl | rfl <;> decide) r)

/-- A line end or a space is read as nothing. -/
theorem ReadsAs.blank {c : Char} (hc : c = '\n' ∨ c = ' ') {r : List Char}
    {ts : Option (List Token)} (h : ReadsAs r ts) : ReadsAs (c :: r) ts := by
  have hstop : isStop c := by rcases hc with rfl | rfl <;> rfl
  rw [ReadsAs, maskedChars_stop hstop]
  have hstep : step? .generic (c :: maskedChars r) = some (none, maskedChars r) := by
    rw [step?_stop hstop]
    rcases hc with rfl | rfl
    all_goals rw [unprefixed?, if_neg (by decide), if_neg (by decide), if_pos (by decide)]
  simpa using CutInto.step h hstep (by simp)

/-- A parenthesis is a piece by itself. -/
theorem ReadsAs.parenthesis {c : Char} (hc : c = '(' ∨ c = ')') {r : List Char}
    {ts : Option (List Token)} (h : ReadsAs r ts) :
    ReadsAs (c :: r) (ts.map (.mark (String.singleton c) :: ·)) := by
  have hstop : isStop c := by rcases hc with rfl | rfl <;> rfl
  rw [ReadsAs, maskedChars_stop hstop]
  have hstep : step? .generic (c :: maskedChars r)
      = some (some (.mark (String.singleton c)), maskedChars r) := by
    rw [step?_stop hstop]
    generalize maskedChars r = rest
    rcases hc with rfl | rfl
    all_goals
      rw [unprefixed?, if_neg (by decide), if_neg (by decide), if_neg (by decide),
        sign?_plain (by decide) (by simp) (by simp), if_neg (by decide),
        if_neg (by decide), if_neg (by decide)]
      rfl
  exact CutInto.step h hstep (by simp)

end QueryCanvas.Sql
