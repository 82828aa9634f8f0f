import QueryCanvas.Text.Blank

/-!
# Template parameters

A template parameter is a name between double braces, as in `{{ name }}`.  It counts only in code:
inside quotes and comments the same characters are plain text.  The text of a query is scanned
once, in one of four modes, into plain characters and parameters.  Since parameters are not part of
the query language, they are put between single quotes before a text is parsed, which is undone in
what is read from the parsed text.
-/

set_option autoImplicit false

namespace QueryCanvas

/-- A template parameter as it is written, with its name. -/
structure Parameter where
  written : List Char
  name : List Char
deriving DecidableEq, Repr

namespace Parameter

def isNameStart (c : Char) : Bool := c.isAlpha || c == '_'

def isNamePart (c : Char) : Bool := c.isAlphanum || c == '_'

/-- Reads what stands between the opening braces and the end of the closing ones. -/
def body? (cs : List Char) : Option (Parameter × List Char) :=
  let before := cs.takeWhile Text.isBlank
  let cs := cs.dropWhile Text.isBlank
  let name := cs.takeWhile isNamePart
  let cs := cs.dropWhile isNamePart
  let after := cs.takeWhile Text.isBlank
  match cs.dropWhile Text.isBlank with
  | '}' :: '}' :: rest =>
    if name.head?.any isNameStart then
      some (⟨'{' :: '{' :: before ++ name ++ after ++ ['}', '}'], name⟩, rest)
    else none
  | _ => none

/-- Reads a parameter at the beginning of a text. -/
def at? : List Char → Option (Parameter × List Char)
  | '{' :: '{' :: cs => body? cs
  | _ => none

theorem length_dropWhile_le (p : Char → Bool) (cs : List Char) :
    (cs.dropWhile p).length ≤ cs.length :=
  (List.dropWhile_sublist p).length_le

theorem length_of_body? {cs rest : List Char} {p : Parameter} (h : body? cs = some (p, rest)) :
    rest.length < cs.length := by
  simp only [body?] at h
  split at h
  · rename_i r heq
    split at h
    · simp only [Option.some.injEq, Prod.mk.injEq] at h
      have h1 := length_dropWhile_le Text.isBlank
        ((cs.dropWhile Text.isBlank).dropWhile isNamePart)
      have h2 := length_dropWhile_le isNamePart (cs.dropWhile Text.isBlank)
      have h3 := length_dropWhile_le Text.isBlank cs
      rw [heq] at h1
      simp only [List.length_cons] at h1
      rw [← h.2]
      omega
    · simp at h
  · simp at h

/-- A parameter takes characters off the text. -/
theorem length_of_at? {cs rest : List Char} {p : Parameter} (h : at? cs = some (p, rest)) :
    rest.length < cs.length := by
  unfold at? at h
  split at h
  · have := length_of_body? h
    simp only [List.length_cons]
    omega
  · simp at h

/-- Whether a text is one parameter and nothing else. -/
def isParameter (s : String) : Bool :=
  match at? s.toList with
  | some (_, rest) => rest.isEmpty
  | none => false

/-- Where a scan of a query text stands. -/
inductive Mode where
  | code
  /-- Inside quotes of the given kind. -/
  | quoted (mark : Char)
  /-- In a comment that ends with the line. -/
  | lineComment
  /-- In a comment that ends at its closing mark. -/
  | blockComment
deriving DecidableEq, Repr

/-- A piece of a scanned text. -/
inductive Piece where
  | plain (c : Char)
  | parameter (p : Parameter)
deriving DecidableEq, Repr

def isQuote (c : Char) : Bool := c == '\'' || c == '"' || c == '`'

/-- Scans a text that begins in the given mode: its pieces, and the mode in which it ends.  A
doubled quote leaves the quotes and enters them again, which comes to the same. -/
def scan : Mode → List Char → List Piece × Mode
  | mode, [] => ([], mode)
  | .code, '-' :: '-' :: cs =>
    let (ps, last) := scan .lineComment cs
    (.plain '-' :: .plain '-' :: ps, last)
  | .code, '/' :: '*' :: cs =>
    let (ps, last) := scan .blockComment cs
    (.plain '/' :: .plain '*' :: ps, last)
  | .code, c :: cs =>
    match _h : at? (c :: cs) with
    | some (p, rest) =>
      let (ps, last) := scan .code rest
      (.parameter p :: ps, last)
    | none =>
      let (ps, last) := scan (if isQuote c then .quoted c else .code) cs
      (.plain c :: ps, last)
  | .quoted mark, c :: cs =>
    let (ps, last) := scan (if c = mark then .code else .quoted mark) cs
    (.plain c :: ps, last)
  | .lineComment, c :: cs =>
    let (ps, last) := scan (if c = '\n' then .code else .lineComment) cs
    (.plain c :: ps, last)
  | .blockComment, '*' :: '/' :: cs =>
    let (ps, last) := scan .code cs
    (.plain '*' :: .plain '/' :: ps, last)
  | .blockComment, c :: cs =>
    let (ps, last) := scan .blockComment cs
    (.plain c :: ps, last)
termination_by _ cs => cs.length
decreasing_by
  all_goals first
    | exact length_of_at? _h
    | (simp only [List.length_cons]; omega)

/-- The parameters of a query text, in order. -/
def occurrences (s : String) : List Parameter :=
  (scan .code s.toList).1.filterMap fun
    | .parameter p => some p
    | .plain _ => none

/-- The characters that stand for a piece once parameters are put between single quotes. -/
def Piece.masked : Piece → List Char
  | .plain c => [c]
  | .parameter p => '\'' :: p.written ++ ['\'']

/-- The text with each parameter between single quotes. -/
def mask (s : String) : String :=
  String.ofList ((scan .code s.toList).1.flatMap Piece.masked)

/-- Takes the single quotes off every parameter that stands between them. -/
def unmaskChars : List Char → List Char
  | [] => []
  | c :: cs =>
    match _h : (if c = '\'' then at? cs else none) with
    | some (p, '\'' :: rest) => p.written ++ unmaskChars rest
    | _ => c :: unmaskChars cs
termination_by cs => cs.length
decreasing_by
  · split at _h
    · have := length_of_at? _h
      simp only [List.length_cons] at *
      omega
    · simp at _h
  · simp

/-- Takes the single quotes off every parameter that stands between them. -/
def unmask (s : String) : String := String.ofList (unmaskChars s.toList)

/-- The different names of the parameters of a query text, in the order of first appearance. -/
def names (s : String) : List String :=
  (occurrences s).foldl
    (fun known p =>
      let name := String.ofList p.name
      if known.contains name then known else known ++ [name])
    []

end Parameter

end QueryCanvas
