/-!
# Blanks, words and lines

The blank characters are those of the Unicode property `White_Space`.  On them rest trimming, the
cut of a text into words, and the folding of blank runs that makes two layouts of one text alike.
Lines end at a line feed; a carriage return right before it belongs to the line end.
-/

set_option autoImplicit false

namespace QueryCanvas.Text

/-- The characters of the Unicode property `White_Space`. -/
def isBlank (c : Char) : Bool :=
  let n := c.toNat
  (0x09 ≤ n && n ≤ 0x0d) || n = 0x20 || n = 0x85 || n = 0xa0 || n = 0x1680
    || (0x2000 ≤ n && n ≤ 0x200a) || n = 0x2028 || n = 0x2029 || n = 0x202f || n = 0x205f
    || n = 0x3000

/-- Drops the characters of the class `p` from both ends. -/
def stripWhere (p : Char → Bool) (cs : List Char) : List Char :=
  ((cs.dropWhile p).reverse.dropWhile p).reverse

/-- Drops the characters of the class `p` from the far end only. -/
def stripEndWhere (p : Char → Bool) (cs : List Char) : List Char :=
  (cs.reverse.dropWhile p).reverse

/-- The text without blanks at either end. -/
def trim (s : String) : String :=
  String.ofList (stripWhere isBlank s.toList)

/-- The text without blanks at its end. -/
def trimEnd (s : String) : String :=
  String.ofList (stripEndWhere isBlank s.toList)

/-- Cuts at every character of the class `p` and drops those characters.  There is one piece more
than there are cuts, so the empty text is one empty piece. -/
def cutWhere (p : Char → Bool) : List Char → List (List Char)
  | [] => [[]]
  | c :: rest =>
    if p c then [] :: cutWhere p rest
    else match cutWhere p rest with
      | [] => [[c]]
      | piece :: pieces => (c :: piece) :: pieces

theorem cutWhere_ne_nil (p : Char → Bool) (cs : List Char) : cutWhere p cs ≠ [] := by
  cases cs with
  | nil => simp [cutWhere]
  | cons c rest =>
    simp only [cutWhere]
    split
    · simp
    · split <;> simp

/-- The pieces of a text between the occurrences of one character. -/
def splitAt (sep : Char) (s : String) : List String :=
  (cutWhere (· == sep) s.toList).map String.ofList

/-- The words of a text: its longest pieces without a blank. -/
def words (s : String) : List String :=
  ((cutWhere isBlank s.toList).filter (!·.isEmpty)).map String.ofList

/-- The text with each run of blanks as one space and none at the ends. -/
def collapse (s : String) : String :=
  " ".intercalate (words s)

/-- Drops one carriage return at the end of a line. -/
def dropReturn (line : List Char) : List Char :=
  match line.reverse with
  | '\r' :: rest => rest.reverse
  | _ => line

/-- The lines of a text.  A final line feed ends the last line and begins no further one; a
carriage return is part of the line end only where a line feed follows it. -/
def lines (s : String) : List String :=
  let pieces := cutWhere (· == '\n') s.toList
  let ended := pieces.dropLast.map dropReturn
  let last := (pieces.getLast?.getD [])
  (if last.isEmpty then ended else ended ++ [last]).map String.ofList

end QueryCanvas.Text
