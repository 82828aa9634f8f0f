import Mathlib.Data.List.Basic
import Mathlib.Tactic.Common
import QueryCanvas.Sql.Render

/-!
# Indented lines

In a text without carriage returns that does not end with a line feed, moving the lines in puts
blanks behind each line feed and in front of the text, except before an empty line.
-/

set_option autoImplicit false

namespace QueryCanvas

/-! ## Lines of a text -/

namespace Text

theorem mem_of_mem_cutWhere {p : Char → Bool} {cs piece : List Char} {c : Char}
    (hpiece : piece ∈ cutWhere p cs) (hc : c ∈ piece) : c ∈ cs := by
  induction cs generalizing piece with
  | nil =>
    rw [cutWhere, List.mem_singleton] at hpiece
    rwa [hpiece] at hc
  | cons x cs ih =>
    simp only [cutWhere] at hpiece
    split at hpiece
    · rcases List.mem_cons.1 hpiece with rfl | hpiece
      · cases hc
      · exact List.mem_cons_of_mem _ (ih hpiece hc)
    · split at hpiece
      · exact absurd ‹_› (cutWhere_ne_nil p cs)
      · rename_i first rest heq
        rcases List.mem_cons.1 hpiece with rfl | hpiece
        · rcases List.mem_cons.1 hc with rfl | hc
          · exact List.mem_cons_self
          · exact List.mem_cons_of_mem _ (ih (by rw [heq]; exact List.mem_cons_self) hc)
        · exact List.mem_cons_of_mem _ (ih (by rw [heq]; exact List.mem_cons_of_mem _ hpiece) hc)

/-- The last piece is empty only if the text ends with a cut. -/
theorem getLast?_cutWhere {p : Char → Bool} {cs : List Char} {c : Char}
    (hlast : cs.getLast? = some c) (hc : p c = false) :
    ∃ piece, (cutWhere p cs).getLast? = some piece ∧ piece ≠ [] := by
  induction cs with
  | nil => cases hlast
  | cons x cs ih =>
    cases cs with
    | nil =>
      obtain rfl : x = c := by simpa using hlast
      simp [cutWhere, hc]
    | cons y ys =>
      obtain ⟨piece, hpiece, hne⟩ := ih (by simpa using hlast)
      rw [cutWhere]
      split
      · exact ⟨piece, by rw [List.getLast?_cons, hpiece]; rfl, hne⟩
      · split
        · exact absurd ‹_› (cutWhere_ne_nil p _)
        · rename_i first rest heq
          rw [heq] at hpiece
          cases rest with
          | nil => exact ⟨x :: first, rfl, by simp⟩
          | cons next rest => exact ⟨piece, by simpa using hpiece, hne⟩

theorem dropReturn_eq {line : List Char} (h : '\r' ∉ line) : dropReturn line = line := by
  unfold dropReturn
  split
  · rename_i rest heq
    refine absurd ?_ h
    rw [← List.mem_reverse, heq]
    exact List.mem_cons_self
  · rfl

/-- The lines of a text without carriage returns that does not end with a line feed. -/
theorem lines_eq {s : String} {c : Char} (hreturn : '\r' ∉ s.toList)
    (hlast : s.toList.getLast? = some c) (hc : c ≠ '\n') :
    lines s = (cutWhere (· == '\n') s.toList).map String.ofList := by
  obtain ⟨piece, hpiece, hne⟩ := getLast?_cutWhere (p := (· == '\n')) hlast (by simpa using hc)
  have hpieces := List.dropLast_append_getLast? piece hpiece
  have hdrop : (cutWhere (· == '\n') s.toList).dropLast.map dropReturn
      = (cutWhere (· == '\n') s.toList).dropLast := by
    refine (List.map_congr_left fun line hline => dropReturn_eq fun hmem => ?_).trans
      (List.map_id _)
    exact hreturn (mem_of_mem_cutWhere (List.dropLast_subset _ hline) hmem)
  have hempty : piece.isEmpty = false := by simpa using hne
  simp only [lines, hpiece, Option.getD_some, hempty, hdrop]
  rw [if_neg (by simp), hpieces]

end Text

/-! ## Blanks in front of the lines -/

namespace Sql

/-- The blanks in front of a text, unless its first line is empty. -/
def firstBlanks (n : Nat) : List Char → List Char
  | [] => []
  | c :: _ => if c = '\n' then [] else List.replicate n ' '

/-- A text with blanks in front of all its lines but the first one, except before an empty line. -/
def moveIn (n : Nat) : List Char → List Char
  | [] => []
  | c :: cs => if c = '\n' then c :: (firstBlanks n cs ++ moveIn n cs) else c :: moveIn n cs

/-- A line with blanks in front of it, unless it is empty. -/
def moveLine (n : Nat) (line : List Char) : List Char :=
  if line.isEmpty then [] else List.replicate n ' ' ++ line

theorem moveIn_pieces (n : Nat) (cs : List Char) :
    ∃ piece pieces, Text.cutWhere (· == '\n') cs = piece :: pieces ∧
      moveLine n piece = firstBlanks n cs ++ piece ∧
      moveIn n cs = piece ++ (pieces.map fun line => '\n' :: moveLine n line).flatten := by
  induction cs with
  | nil => exact ⟨[], [], rfl, rfl, rfl⟩
  | cons c cs ih =>
    obtain ⟨piece, pieces, hcut, hfirst, hrest⟩ := ih
    by_cases hc : c = '\n'
    · refine ⟨[], piece :: pieces, by simp [Text.cutWhere, hc, hcut],
        by simp [moveLine, firstBlanks, hc], ?_⟩
      simp [moveIn, hc, hfirst, hrest]
    · refine ⟨c :: piece, pieces, by simp [Text.cutWhere, hc, hcut], ?_, ?_⟩
      · simp [moveLine, firstBlanks, hc]
      · simp [moveIn, hc, hrest]

theorem intercalate_eq (sep x : List Char) (xs : List (List Char)) :
    sep.intercalate (x :: xs) = x ++ (xs.map (sep ++ ·)).flatten := by
  induction xs generalizing x with
  | nil => simp [List.intercalate]
  | cons y ys ih => rw [List.intercalate_cons_cons, ih]; simp

/-- Moving the lines of a text in. -/
theorem toList_indentLines {l : Layout} {s : String} {c : Char} (hreturn : '\r' ∉ s.toList)
    (hlast : s.toList.getLast? = some c) (hc : c ≠ '\n') :
    (l.indentLines s).toList = firstBlanks l.indent s.toList ++ moveIn l.indent s.toList := by
  obtain ⟨piece, pieces, hcut, hfirst, hrest⟩ := moveIn_pieces l.indent s.toList
  have hline : (String.toList ∘ fun line : String => if line.isEmpty then "" else l.pad ++ line)
      ∘ String.ofList = moveLine l.indent := by
    funext line
    cases line with
    | nil => rfl
    | cons x line => simp [Function.comp_apply, moveLine, Layout.pad]
  rw [Layout.indentLines, Text.lines_eq hreturn hlast hc, String.toList_intercalate, List.map_map,
    List.map_map, hline, hcut, List.map_cons, intercalate_eq, hfirst, hrest]
  simp [Function.comp_def]

end Sql

end QueryCanvas
