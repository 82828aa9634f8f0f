import Mathlib.Data.List.Forall2
import QueryCanvas.Sql.Print
import QueryCanvas.Proofs.Sql.Quote

/-!
# The columns that a text refers to

A column of a source is written with the name of the source and a point before it.  A text is
scanned once for such names.  Their parts are bare words or stand between quotes; what stands
between single quotes is no name, and numbers are none either.
-/

set_option autoImplicit false

namespace QueryCanvas.Sql

/-- A column that is written with the name of a source before it. -/
structure Reference where
  source : String
  column : String
deriving DecidableEq, Repr

/-- A mark that opens and closes quotes. -/
abbrev QuoteMark := { c : Char // Parameter.isQuote c }

/-- Where a scan stands. -/
inductive ScanMode where
  | outside
  | quoted (mark : QuoteMark)
  /-- Behind quotes, which go on if the same mark follows. -/
  | behind (mark : QuoteMark)
deriving DecidableEq, Repr

/-- What a scan has found so far, and the name at hand: its parts before the last point, and what
there is of the part behind it. -/
structure Scan where
  found : List Reference
  before : List String
  part : Option (List Char)
  mode : ScanMode
deriving DecidableEq, Repr

/-- The characters of bare words. -/
def isWordPart (c : Char) : Bool :=
  Parameter.isNamePart c || c == '$' || c == '#' || c == '@' || 128 ≤ c.toNat

/-- The characters that end a name and leave quotes alone. -/
def isSeparator (c : Char) : Bool := !isWordPart c && !Parameter.isQuote c && c != '.'

namespace Scan

def start : Scan := { found := [], before := [], part := none, mode := .outside }

/-- What is found if the text ends here. -/
def references (s : Scan) : List Reference :=
  match s.before, s.part with
  | _ :: _, some cs => s.found ++ [⟨joined "." s.before, String.ofList cs⟩]
  | _, _ => s.found

/-- The name at hand ends. -/
def finish (s : Scan) : Scan :=
  { found := s.references, before := [], part := none, mode := .outside }

/-- A character of a bare word. -/
def word (s : Scan) (c : Char) : Scan :=
  match s.part with
  | some cs => { s with part := some (cs ++ [c]), mode := .outside }
  | none => if c.isDigit then s.finish else { s with part := some [c], mode := .outside }

/-- A point. -/
def point (s : Scan) : Scan :=
  match s.part with
  | some cs =>
    { s with before := s.before ++ [String.ofList cs], part := none, mode := .outside }
  | none => s.finish

/-- Quotes open: single ones around a text, others around a name. -/
def opened (s : Scan) (mark : QuoteMark) : Scan :=
  if mark.1 = '\'' then { s.finish with mode := .quoted mark }
  else match s.part with
    | some _ => { s.finish with part := some [], mode := .quoted mark }
    | none => { s with part := some [], mode := .quoted mark }

/-- A character outside quotes. -/
def outside (s : Scan) (c : Char) : Scan :=
  if isWordPart c then s.word c
  else if c = '.' then s.point
  else if h : Parameter.isQuote c then s.opened ⟨c, h⟩
  else s.finish

/-- A character between quotes; that of a text is no part of a name. -/
def inside (s : Scan) (mark : QuoteMark) (c : Char) : Scan :=
  { s with part := s.part.map (· ++ [c]), mode := .quoted mark }

def next (s : Scan) (c : Char) : Scan :=
  match s.mode with
  | .outside => s.outside c
  | .quoted mark => if c = mark.1 then { s with mode := .behind mark } else s.inside mark c
  | .behind mark => if c = mark.1 then s.inside mark c else s.outside c

def run (s : Scan) (cs : List Char) : Scan := cs.foldl next s

/-- No quotes are open. -/
def isClosed (s : Scan) : Bool :=
  match s.mode with
  | .quoted _ => false
  | _ => true

end Scan

/-- The columns that a text refers to by a source, in order. -/
def referencesIn (text : String) : List Reference := (Scan.start.run text.toList).references

/-- All quotes that are opened in a text are closed in it. -/
def isClosed (text : String) : Bool := (Scan.start.run text.toList).isClosed

example : referencesIn "UPPER(o.id) + \"o p\".x" = [⟨"o", "id"⟩, ⟨"o p", "x"⟩] := by decide +kernel

/-! ## Scans that follow each other -/

namespace Scan

/-- A scan that has found something before. -/
def after (rs : List Reference) (s : Scan) : Scan := { s with found := rs ++ s.found }

variable {rs : List Reference}

theorem run_append (s : Scan) (cs cs' : List Char) : s.run (cs ++ cs') = (s.run cs).run cs' :=
  List.foldl_append

theorem references_after (s : Scan) : (s.after rs).references = rs ++ s.references := by
  obtain ⟨found, before, part, mode⟩ := s
  cases before <;> cases part <;> simp [references, after]

theorem finish_after (s : Scan) : (s.after rs).finish = s.finish.after rs := by
  rw [finish, references_after]
  rfl

theorem outside_after (s : Scan) (c : Char) : (s.after rs).outside c = (s.outside c).after rs := by
  have hfinish : (s.after rs).finish = s.finish.after rs := finish_after s
  obtain ⟨found, before, part, mode⟩ := s
  unfold outside
  split
  · cases part with
    | some cs => rfl
    | none =>
      simp only [word, after] at hfinish ⊢
      split
      · exact hfinish
      · rfl
  · split
    · cases part with
      | some cs => rfl
      | none => exact hfinish
    · split
      · unfold opened
        split
        · rw [hfinish]
          rfl
        · cases part with
          | none => rfl
          | some cs =>
            simp only [after] at hfinish ⊢
            rw [hfinish]
      · exact hfinish

/-- What was found before does not matter for what comes. -/
theorem next_after (s : Scan) (c : Char) : (s.after rs).next c = (s.next c).after rs := by
  have houtside : (s.after rs).outside c = (s.outside c).after rs := outside_after s c
  obtain ⟨found, before, part, mode⟩ := s
  cases mode with
  | outside => exact houtside
  | quoted mark =>
    simp only [next, after]
    split <;> rfl
  | behind mark =>
    simp only [next, after]
    split
    · rfl
    · exact houtside

theorem run_after (s : Scan) (cs : List Char) : (s.after rs).run cs = (s.run cs).after rs := by
  induction cs generalizing s with
  | nil => rfl
  | cons c cs ih =>
    show ((s.after rs).next c).run cs = _
    rw [next_after, ih]
    rfl

/-- A separator ends the name at hand. -/
theorem next_separator {s : Scan} {c : Char} (hs : s.isClosed) (hc : isSeparator c) :
    s.next c = s.finish := by
  simp only [isSeparator, Bool.and_eq_true, Bool.not_eq_true', bne_iff_ne] at hc
  obtain ⟨⟨hword, hquote⟩, hpoint⟩ := hc
  have houtside : s.outside c = s.finish := by simp [outside, hword, hpoint, hquote]
  obtain ⟨found, before, part, mode⟩ := s
  cases mode with
  | outside => exact houtside
  | quoted mark => cases hs
  | behind mark =>
    have hmark : c ≠ mark.1 := by
      rintro rfl
      rw [mark.2] at hquote
      cases hquote
    simp only [next, if_neg hmark]
    exact houtside

end Scan

/-- The characters are a closed text that refers to these columns. -/
structure Refers (cs : List Char) (rs : List Reference) : Prop where
  references : (Scan.start.run cs).references = rs
  closed : (Scan.start.run cs).isClosed

namespace Refers

variable {cs cs' : List Char} {rs rs' : List Reference}

theorem of_isClosed {text : String} (h : isClosed text) : Refers text.toList (referencesIn text) :=
  ⟨rfl, h⟩

/-- Two texts with a separator between them. -/
theorem append {c : Char} (hc : isSeparator c) (h : Refers cs rs) (h' : Refers cs' rs') :
    Refers (cs ++ c :: cs') (rs ++ rs') := by
  have hrun : Scan.start.run (cs ++ c :: cs') = (Scan.start.run cs').after rs := by
    have hfinish : (Scan.start.run cs).finish = Scan.start.after rs := by
      rw [Scan.finish, h.references]
      simp [Scan.start, Scan.after]
    rw [Scan.run_append, ← Scan.run_after, ← hfinish, ← Scan.next_separator h.closed hc]
    rfl
  refine ⟨?_, ?_⟩
  · rw [hrun, Scan.references_after, h'.references]
  · rw [hrun]
    exact h'.closed

end Refers

/-! ## Written columns -/

namespace Scan

/-- The name has just been read, and a point can follow. -/
structure AtHand (s : Scan) (found : List Reference) (before : List String) (name : String) :
    Prop where
  found : s.found = found
  before : s.before = before
  part : s.part = some name.toList
  mode : s.mode = .outside ∨ s.mode = .behind ⟨'"', rfl⟩

variable {s : Scan} {found : List Reference} {before : List String} {name : String}

theorem AtHand.point (h : s.AtHand found before name) :
    s.next '.' = { found, before := before ++ [name], part := none, mode := .outside } := by
  obtain ⟨_, _, _, mode⟩ := s
  obtain ⟨rfl, rfl, rfl, rfl | rfl⟩ := h <;>
    simp [next, outside, Scan.point, isWordPart, Parameter.isNamePart]

theorem isWordPart_of_isNamePart {c : Char} (h : Parameter.isNamePart c) : isWordPart c := by
  simp [isWordPart, h]

theorem run_word {w cs : List Char} (hw : ∀ c ∈ w, Parameter.isNamePart c) :
    run { found, before, part := some cs, mode := .outside } w =
      { found, before, part := some (cs ++ w), mode := .outside } := by
  induction w generalizing cs with
  | nil => rw [List.append_nil]; rfl
  | cons c w ih =>
    have hc := isWordPart_of_isNamePart (hw c List.mem_cons_self)
    have hnext : next { found, before, part := some cs, mode := .outside } c =
        { found, before, part := some (cs ++ [c]), mode := .outside } := by
      simp [next, outside, word, hc]
    show (next _ c).run w = _
    rw [hnext, ih fun c h => hw c (List.mem_cons_of_mem _ h), List.append_assoc]
    rfl

theorem run_doubled (mark : QuoteMark) {w cs : List Char} :
    run { found, before, part := some cs, mode := .quoted mark } (doubled mark.1 w) =
      { found, before, part := some (cs ++ w), mode := .quoted mark } := by
  induction w generalizing cs with
  | nil => rw [List.append_nil]; rfl
  | cons c w ih =>
    have hfirst : run { found, before, part := some cs, mode := .quoted mark }
        (if c = mark.1 then [mark.1, mark.1] else [c]) =
        { found, before, part := some (cs ++ [c]), mode := .quoted mark } := by
      split
      · rename_i hc
        simp [run, next, inside, hc]
      · rename_i hc
        simp [run, next, inside, hc]
    rw [doubled, List.flatMap_cons, run_append, hfirst]
    exact ih.trans (by rw [List.append_assoc]; rfl)

theorem not_isDigit_of_isNameStart {c : Char} (h : Parameter.isNameStart c) :
    c.isDigit = false := by
  rcases Bool.or_eq_true _ _ ▸ h with h | h
  · delta Char.isAlpha Char.isUpper Char.isLower at h
    simp only [Bool.or_eq_true, Bool.and_eq_true, decide_eq_true_eq, ge_iff_le,
      UInt32.le_iff_toNat_le] at h
    simp only [Char.isDigit, ge_iff_le, Bool.and_eq_false_imp, decide_eq_true_eq,
      decide_eq_false_iff_not, UInt32.le_iff_toNat_le]
    simp at h ⊢
    omega
  · rw [beq_iff_eq.1 h]
    rfl

theorem atHand_quoteName (found : List Reference) (before : List String) (name : String) :
    (run { found, before, part := none, mode := .outside } (quoteName name).toList).AtHand found
      before name := by
  unfold quoteName
  split
  · rename_i hplain
    simp only [isPlainName, Bool.and_eq_true] at hplain
    obtain ⟨hstart, hparts⟩ := hplain
    cases hname : name.toList with
    | nil => simp [hname] at hstart
    | cons c w =>
      rw [hname, List.head?_cons, Option.any_some] at hstart
      rw [hname, List.all_cons, Bool.and_eq_true] at hparts
      have hnext : next { found, before, part := none, mode := .outside } c =
          { found, before, part := some [c], mode := .outside } := by
        simp [next, outside, word, isWordPart_of_isNamePart hparts.1,
          not_isDigit_of_isNameStart hstart]
      have hrun : run { found, before, part := none, mode := .outside } (c :: w) =
          { found, before, part := some (c :: w), mode := .outside } := by
        show (next _ c).run w = _
        rw [hnext, run_word (List.all_eq_true.1 hparts.2)]
        rfl
      rw [hrun]
      exact ⟨rfl, rfl, by rw [hname], .inl rfl⟩
  · have hopen : next { found, before, part := none, mode := .outside } '"' =
        { found, before, part := some [], mode := .quoted ⟨'"', rfl⟩ } := rfl
    rw [toList_quoted, run_append]
    show ((next _ '"').run (doubled '"' name.toList)).next '"' |>.AtHand found before name
    rw [hopen, run_doubled ⟨'"', rfl⟩, List.nil_append]
    exact ⟨rfl, rfl, rfl, .inr rfl⟩

/-- Of names with points between them the last one is at hand. -/
theorem atHand_pathChars (found : List Reference) (init : List String) (last : String) :
    ∀ before : List String,
      (run { found, before, part := none, mode := .outside } (pathChars (init ++ [last]))).AtHand
        found (before ++ init) last := by
  induction init with
  | nil =>
    intro before
    rw [List.append_nil]
    exact atHand_quoteName found before last
  | cons name rest ih =>
    intro before
    have hcons : pathChars (name :: rest ++ [last]) =
        (quoteName name).toList ++ '.' :: pathChars (rest ++ [last]) := by
      cases rest <;> rfl
    have hnext := (atHand_quoteName found before name).point
    rw [hcons, run_append]
    show ((next _ '.').run _).AtHand found (before ++ name :: rest) last
    rw [hnext]
    simpa using ih (before ++ [name])

end Scan

/-- Names with points between them refer to one column, unless there is only one name. -/
theorem refers_pathChars (init : List String) (last : String) :
    Refers (pathChars (init ++ [last])) (if init = [] then [] else [⟨joined "." init, last⟩]) := by
  have hlast := Scan.atHand_pathChars [] init last []
  rw [List.nil_append] at hlast
  refine ⟨?_, ?_⟩
  · obtain ⟨hfound, hbefore, hpart, -⟩ := hlast
    rw [Scan.start, Scan.references, hfound, hbefore, hpart]
    cases init with
    | nil => rfl
    | cons name rest => simp
  · rw [Scan.start, Scan.isClosed]
    rcases hlast.mode with hmode | hmode <;> rw [hmode]

theorem toList_joined_point (pieces : List (List Char)) :
    (joined "." (pieces.map String.ofList)).toList = ['.'].intercalate pieces := by
  induction pieces with
  | nil => rfl
  | cons piece rest ih =>
    cases rest with
    | nil => simp [joined]
    | cons next rest =>
      rw [List.map_cons, List.map_cons, joined, String.intercalate_cons_cons, String.toList_append,
        String.toList_append, String.toList_ofList, List.intercalate_cons_of_ne_nil (by simp),
        ← List.map_cons, ← ih]
      rfl

theorem joined_splitAt (s : String) : joined "." (Text.splitAt '.' s) = s := by
  rw [← String.toList_inj, Text.splitAt, toList_joined_point, intercalate_cutWhere]

theorem refers_columnRef (table column : String) :
    Refers (columnRef table column).toList [⟨table, column⟩] := by
  have h := refers_pathChars (Text.splitAt '.' table) column
  rw [if_neg (splitAt_ne_nil '.' table), joined_splitAt, ← toList_columnRef] at h
  exact h

theorem refers_quoteName (name : String) : Refers (quoteName name).toList [] :=
  refers_pathChars [] name
end QueryCanvas.Sql
