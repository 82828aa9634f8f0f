import QueryCanvas.Data.Json
import QueryCanvas.Text.Blank

/-!
# Reading TOML

A reader of TOML documents.  A document is first cut into its statements, which are headers and
assignments.  These are then carried out one after another on a tree of tables that remembers how
each table came to be, since that decides whether a later statement may still add to it.
-/

set_option autoImplicit false

namespace QueryCanvas.Toml

open Json (Reader)

/-! ## Blanks, comments and line ends -/

def isBlank (c : Char) : Bool := c == ' ' || c == '\t'

def skipBlanks (cs : List Char) : List Char := cs.dropWhile isBlank

/-- The characters that may stand in comments and texts. -/
def isPrintable (c : Char) : Bool := c == '\t' || (0x20 ≤ c.toNat && c.toNat ≠ 0x7f)

/-- Skips blanks, line ends and comments; none if a comment holds a control character. -/
def skipLines (inComment : Bool) : List Char → Option (List Char)
  | [] => some []
  | c :: rest =>
    if c == '\n' then skipLines false rest
    else if inComment then (if isPrintable c then skipLines true rest else none)
    else if c == '#' then skipLines true rest
    else if isBlank c then skipLines false rest
    else some (c :: rest)

/-- Skips what may follow a statement on its line, up to the line end. -/
def endLine? (cs : List Char) : Option (List Char) :=
  match skipBlanks cs with
  | [] => some []
  | '\n' :: rest => some rest
  | '#' :: rest =>
    let comment := rest.takeWhile (· ≠ '\n')
    if comment.all isPrintable then some ((rest.dropWhile (· ≠ '\n')).drop 1) else none
  | _ => none

/-! ## Texts -/

/-- The character of a one-letter escape. -/
def shortEscape? : Char → Option Char
  | '"' => some '"'
  | '\\' => some '\\'
  | 'b' => some '\x08'
  | 'e' => some '\x1b'
  | 'f' => some '\x0c'
  | 'n' => some '\n'
  | 'r' => some '\r'
  | 't' => some '\t'
  | _ => none

/-- The character of an escape with hexadecimal digits. -/
def codePoint? (digits : List Char) : Option Char := do
  let ds ← digits.mapM Json.hexDigit?
  let n := ds.foldl (fun n d => n * 16 + d) 0
  if n.isValidChar then some (Char.ofNat n) else none

/-- Puts a character in front of a text that was read. -/
def prepend (c : Option Char) (read : Option (List Char × List Char)) :
    Option (List Char × List Char) :=
  c.bind fun c => read.map fun r => (c :: r.1, r.2)

/-- The end of a text over several lines: up to two quotes before the closing ones belong to it. -/
def lastQuotes (mark : Char) (rest : List Char) : List Char × List Char :=
  let extra := (rest.takeWhile (· == mark)).take 2
  (extra, rest.drop extra.length)

/-- Reads a text with escapes from after its opening quotes.  `many` is set if it may run over
several lines, and `skipping` after a backslash at the end of a line. -/
def basicBody? (many skipping : Bool) : Reader (List Char)
  | [] => none
  | '\\' :: 'u' :: a :: b :: c :: d :: rest =>
    prepend (codePoint? [a, b, c, d]) (basicBody? many false rest)
  | '\\' :: 'U' :: a :: b :: c :: d :: e :: f :: g :: h :: rest =>
    prepend (codePoint? [a, b, c, d, e, f, g, h]) (basicBody? many false rest)
  | '\\' :: 'x' :: a :: b :: rest => prepend (codePoint? [a, b]) (basicBody? many false rest)
  | '\\' :: e :: rest =>
    if many && (skipBlanks (e :: rest)).head? = some '\n' then basicBody? many true (e :: rest)
    else prepend (shortEscape? e) (basicBody? many false rest)
  | c :: rest =>
    if skipping && (isBlank c || c == '\n') then basicBody? many true rest
    else if c == '"' && !many then some ([], rest)
    else if c == '"' && rest.take 2 = ['"', '"'] then some (lastQuotes '"' (rest.drop 2))
    else if (isPrintable c && c ≠ '\\') || (many && c == '\n') then
      prepend c (basicBody? many false rest)
    else none

/-- Reads a text without escapes from after its opening quotes. -/
def literalBody? (many : Bool) : Reader (List Char)
  | [] => none
  | c :: rest =>
    if c == '\'' && !many then some ([], rest)
    else if c == '\'' && rest.take 2 = ['\'', '\''] then some (lastQuotes '\'' (rest.drop 2))
    else if isPrintable c || (many && c == '\n') then prepend c (literalBody? many rest)
    else none

/-- Drops a line end at the beginning of a text over several lines. -/
def dropFirstBreak : List Char → List Char
  | '\n' :: rest => rest
  | rest => rest

/-- Reads a text in quotes. -/
def text? : Reader (List Char)
  | '"' :: '"' :: '"' :: rest => basicBody? true false (dropFirstBreak rest)
  | '\'' :: '\'' :: '\'' :: rest => literalBody? true (dropFirstBreak rest)
  | '"' :: rest => basicBody? false false rest
  | '\'' :: rest => literalBody? false rest
  | _ => none

/-! ## Keys -/

def isKeyChar (c : Char) : Bool := c.isAlphanum || c == '_' || c == '-'

/-- Reads one part of a key. -/
def keyPart? (cs : List Char) : Option (String × List Char) :=
  match cs with
  | '"' :: rest => (basicBody? false false rest).map fun r => (String.ofList r.1, r.2)
  | '\'' :: rest => (literalBody? false rest).map fun r => (String.ofList r.1, r.2)
  | cs =>
    let word := cs.takeWhile isKeyChar
    if word.isEmpty then none else some (String.ofList word, cs.dropWhile isKeyChar)

/-- Reads a key: parts joined by points.  The first argument bounds their number. -/
def key? : Nat → Reader (List String)
  | 0, _ => none
  | n + 1, cs =>
    match keyPart? (skipBlanks cs) with
    | none => none
    | some (part, rest) =>
      match skipBlanks rest with
      | '.' :: rest => (key? n rest).map fun r => (part :: r.1, r.2)
      | rest => some ([part], rest)

/-! ## Numbers, dates and truth values -/

/-- Whether a text consists of digits with single underscores between them. -/
def isDigits (isDigit : Char → Bool) (cs : List Char) : Bool :=
  (Text.cutWhere (· == '_') cs).all fun run => !run.isEmpty && run.all isDigit

def dropUnderscores (cs : List Char) : List Char := cs.filter (· ≠ '_')

/-- The characters of a run of digits. -/
def isDigitMark (c : Char) : Bool := c.isDigit || c == '_'

/-- A whole number in one of the bases with a mark of their own. -/
def based? (base : Nat) (digits : List Char) : Option Nat :=
  let value? (c : Char) : Option Nat := (Json.hexDigit? c).filter (· < base)
  if isDigits (fun c => (value? c).isSome) digits then
    (dropUnderscores digits).foldlM (fun n c => (value? c).map (n * base + ·)) 0
  else none

/-- Whether digits are those of a decimal whole number, which has no zero in front. -/
def isWhole (cs : List Char) : Bool :=
  isDigits Char.isDigit cs && (cs.head? ≠ some '0' || cs.length = 1)

/-- Takes a sign off a numeral: whether it is negative, and the rest. -/
def splitSign : List Char → Bool × List Char
  | '-' :: rest => (true, rest)
  | '+' :: rest => (false, rest)
  | rest => (false, rest)

/-- A number with a point or an exponent. -/
def float? (cs : List Char) : Option Data :=
  let (negative, body) := splitSign cs
  let whole := body.takeWhile isDigitMark
  let rest := body.dropWhile isDigitMark
  let (fractionOk, rest) := match rest with
    | '.' :: tail =>
      (isDigits Char.isDigit (tail.takeWhile isDigitMark), tail.dropWhile isDigitMark)
    | rest => (true, rest)
  let exponentOk := match rest with
    | [] => true
    | c :: tail => (c == 'e' || c == 'E') && isDigits Char.isDigit (splitSign tail).2
  if isWhole whole && fractionOk && exponentOk then
    match (Decimal.read? (dropUnderscores body)).bind Decimal.toDouble? with
    | some d => some (.double (d.withSign negative))
    | none => some .unusable
  else if String.ofList body ∈ ["inf", "nan"] then some .unusable
  else none

/-- The number of some digits, if it lies between two bounds. -/
def within (low high : Nat) (digits : List Char) : Bool :=
  digits.all Char.isDigit
    && decide (low ≤ Decimal.digitsValue digits ∧ Decimal.digitsValue digits ≤ high)

/-- The number of days of a month. -/
def monthDays (year month : Nat) : Nat :=
  if month = 2 then (if year % 4 = 0 && (year % 100 ≠ 0 || year % 400 = 0) then 29 else 28)
  else if month ∈ [4, 6, 9, 11] then 30 else 31

def isDate : List Char → Bool
  | [y1, y2, y3, y4, '-', m1, m2, '-', d1, d2] =>
    let year := [y1, y2, y3, y4]
    within 0 9999 year && within 1 12 [m1, m2] &&
      within 1 (monthDays (Decimal.digitsValue year) (Decimal.digitsValue [m1, m2])) [d1, d2]
  | _ => false

/-- Whether a text is a time of day; the seconds and their fraction may be left out. -/
def isTime : List Char → Bool
  | h1 :: h2 :: ':' :: m1 :: m2 :: rest =>
    within 0 23 [h1, h2] && within 0 59 [m1, m2] &&
      match rest with
      | [] => true
      | ':' :: s1 :: s2 :: [] => within 0 60 [s1, s2]
      | ':' :: s1 :: s2 :: '.' :: fraction =>
        within 0 60 [s1, s2] && !fraction.isEmpty && fraction.all Char.isDigit
      | _ => false
  | _ => false

/-- Whether a text is a time of day that may have a time zone. -/
def isZonedTime (cs : List Char) : Bool :=
  let time := cs.takeWhile fun c => c.isDigit || c == ':' || c == '.'
  isTime time &&
    match cs.drop time.length with
    | [] => true
    | ['Z'] | ['z'] => true
    | [sign, h1, h2, ':', m1, m2] =>
      (sign == '+' || sign == '-') && within 0 23 [h1, h2] && within 0 59 [m1, m2]
    | _ => false

/-- A date, a time of day, or both.  It is a record of its own kind with the written text. -/
def moment? (cs : List Char) : Option Data :=
  let moment : Data := .record [("$moment", .text (String.ofList cs))]
  let between := (cs.drop 10).head?
  if isTime cs || isDate cs then some moment
  else if isDate (cs.take 10) && (between = some 'T' || between = some 't' || between = some ' ')
      && isZonedTime (cs.drop 11) then some moment
  else none

/-- A value without quotes and brackets. -/
def plainValue? (cs : List Char) : Option Data :=
  let (negative, body) := splitSign cs
  if cs = "true".toList then some (.bool true)
  else if cs = "false".toList then some (.bool false)
  else match cs with
    | '0' :: 'x' :: ds => (based? 16 ds).map fun n => .whole n
    | '0' :: 'o' :: ds => (based? 8 ds).map fun n => .whole n
    | '0' :: 'b' :: ds => (based? 2 ds).map fun n => .whole n
    | _ =>
      if isWhole body then
        let n := Decimal.digitsValue (dropUnderscores body)
        some (.whole (if negative then -n else n))
      else (float? cs).or (moment? cs)

/-- The characters that end a value without quotes and brackets. -/
def endsPlain (c : Char) : Bool :=
  c == ',' || c == ']' || c == '}' || c == '#' || c == '\n' || isBlank c

/-- The written text of a value without quotes and brackets.  One blank may stand in it, between a
date and a time of day. -/
def takePlain (cs : List Char) : List Char :=
  let first := cs.takeWhile (!endsPlain ·)
  match cs.drop first.length with
  | ' ' :: c :: rest =>
    if isDate first && c.isDigit then first ++ ' ' :: (c :: rest).takeWhile (!endsPlain ·)
    else first
  | _ => first

/-! ## Tables -/

/-- How a table came to be. -/
inductive Origin where
  /-- By its own header. -/
  | header
  /-- On the way to the table of another header. -/
  | path
  /-- By the parts of a key. -/
  | key
deriving DecidableEq

/-- A node of a document that is being built. -/
inductive Node where
  /-- A value to which nothing can be added. -/
  | value (d : Data)
  | table (origin : Origin) (entries : List (String × Node))
  /-- Tables that share a header, in order. -/
  | tables (elements : List (List (String × Node)))

/-- The entries of a table. -/
abbrev Entries := List (String × Node)

namespace Entries

def find? (es : Entries) (key : String) : Option Node := (List.find? (·.1 = key) es).map (·.2)

/-- Puts a node in place of the one of that key. -/
def replace (es : Entries) (key : String) (node : Node) : Entries :=
  es.map fun e => if e.1 = key then (key, node) else e

end Entries

/-- Assigns a value to a key below some entries. -/
def assign (value : Data) : List String → Entries → Option Entries
  | [], _ => none
  | [key], es => if (es.find? key).isSome then none else some (es ++ [(key, .value value)])
  | key :: rest, es =>
    match es.find? key with
    | none => (assign value rest []).map fun sub => es ++ [(key, .table .key sub)]
    | some (.table origin sub) =>
      if origin = .key || (origin = .path && rest.length ≠ 1) then
        (assign value rest sub).map fun sub => es.replace key (.table origin sub)
      else none
    | some _ => none

/-- Opens the table of a header. -/
def openTable : List String → Entries → Option Entries
  | [], _ => none
  | [key], es =>
    match es.find? key with
    | none => some (es ++ [(key, .table .header [])])
    | some (.table .path sub) => some (es.replace key (.table .header sub))
    | some _ => none
  | key :: rest, es =>
    match es.find? key with
    | none => (openTable rest []).map fun sub => es ++ [(key, .table .path sub)]
    | some (.table origin sub) =>
      (openTable rest sub).map fun sub => es.replace key (.table origin sub)
    | some (.tables elements) =>
      (openTable rest (elements.getLast?.getD [])).map fun sub =>
        es.replace key (.tables (elements.dropLast ++ [sub]))
    | some (.value _) => none

/-- Adds a table to those that share a header. -/
def openElement : List String → Entries → Option Entries
  | [], _ => none
  | [key], es =>
    match es.find? key with
    | none => some (es ++ [(key, .tables [[]])])
    | some (.tables elements) => some (es.replace key (.tables (elements ++ [[]])))
    | some _ => none
  | key :: rest, es =>
    match es.find? key with
    | none => (openElement rest []).map fun sub => es ++ [(key, .table .path sub)]
    | some (.table origin sub) =>
      (openElement rest sub).map fun sub => es.replace key (.table origin sub)
    | some (.tables elements) =>
      (openElement rest (elements.getLast?.getD [])).map fun sub =>
        es.replace key (.tables (elements.dropLast ++ [sub]))
    | some (.value _) => none

/-- Assigns a value to a key of the table that a header opened. -/
def assignUnder (value : Data) (key : List String) : List String → Entries → Option Entries
  | [], es => assign value key es
  | part :: rest, es =>
    match es.find? part with
    | some (.table origin sub) =>
      (assignUnder value key rest sub).map fun sub => es.replace part (.table origin sub)
    | some (.tables elements) =>
      (assignUnder value key rest (elements.getLast?.getD [])).map fun sub =>
        es.replace part (.tables (elements.dropLast ++ [sub]))
    | _ => none

mutual

/-- The finished value of a node. -/
def Node.toData : Node → Data
  | .value d => d
  | .table _ entries => .record (entriesToData entries)
  | .tables elements => .list (elementsToData elements)

/-- The finished fields of a table. -/
def entriesToData : List (String × Node) → List (String × Data)
  | [] => []
  | (key, node) :: rest => (key, node.toData) :: entriesToData rest

/-- The finished tables that share a header. -/
def elementsToData : List (List (String × Node)) → List Data
  | [] => []
  | entries :: rest => .record (entriesToData entries) :: elementsToData rest

end

/-! ## Values -/

/-- Reads members that are separated by commas, over any number of lines, up to and with the closing
mark.  A comma may follow the last one.  The first argument bounds their number. -/
def members? {α : Type} (member : Reader α) (close : Char) : Nat → Reader (List α)
  | 0, _ => none
  | n + 1, cs =>
    match skipLines false cs with
    | none | some [] => none
    | some (c :: rest) =>
      if c == close then some ([], rest)
      else
        match member (c :: rest) with
        | none => none
        | some (a, rest) =>
          match skipLines false rest with
          | some (',' :: rest) => (members? member close n rest).map fun r => (a :: r.1, r.2)
          | some (c :: rest) => if c == close then some ([a], rest) else none
          | _ => none

/-- Reads a key and the value that is assigned to it. -/
def assignment? (value : Reader Data) (cs : List Char) :
    Option ((List String × Data) × List Char) :=
  match key? (cs.length + 1) cs with
  | some (key, '=' :: rest) => (value (skipBlanks rest)).map fun r => ((key, r.1), r.2)
  | _ => none

/-- The record of a table that is written in braces. -/
def inlineTable? (assignments : List (List String × Data)) : Option Data :=
  (assignments.foldlM (fun es a => assign a.2 a.1 es) []).map fun es => .record (entriesToData es)

/-- Reads a value in which at most `depth` lists and tables nest. -/
def value? (depth : Nat) (cs : List Char) : Option (Data × List Char) :=
  match cs with
  | '[' :: rest =>
    match depth with
    | 0 => none
    | depth + 1 =>
      (members? (value? depth) ']' (rest.length + 1) rest).map fun r => (.list r.1, r.2)
  | '{' :: rest =>
    match depth with
    | 0 => none
    | depth + 1 =>
      (members? (assignment? (value? depth)) '}' (rest.length + 1) rest).bind fun r =>
        (inlineTable? r.1).map (·, r.2)
  | '"' :: rest => (text? ('"' :: rest)).map fun r => (.text (String.ofList r.1), r.2)
  | '\'' :: rest => (text? ('\'' :: rest)).map fun r => (.text (String.ofList r.1), r.2)
  | cs =>
    let written := takePlain cs
    (plainValue? written).map fun d => (d, cs.drop written.length)

/-- The most lists and tables that may nest in a value. -/
def maxDepth : Nat := 80

/-! ## Documents -/

/-- A document that is being built: its entries, and the header whose table is open. -/
structure Document where
  entries : Entries
  header : List String

/-- Carries out the statement at the beginning of a text. -/
def statement? (doc : Document) (cs : List Char) : Option (Document × List Char) :=
  match cs with
  | '[' :: '[' :: rest =>
    match key? (rest.length + 1) rest with
    | some (key, ']' :: ']' :: rest) =>
      (openElement key doc.entries).map fun es => (⟨es, key⟩, rest)
    | _ => none
  | '[' :: rest =>
    match key? (rest.length + 1) rest with
    | some (key, ']' :: rest) => (openTable key doc.entries).map fun es => (⟨es, key⟩, rest)
    | _ => none
  | cs =>
    (assignment? (value? maxDepth) cs).bind fun r =>
      (assignUnder r.1.2 r.1.1 doc.header doc.entries).map fun es => (⟨es, doc.header⟩, r.2)

/-- Carries out the statements of a text.  The first argument bounds their number. -/
def statements? : Nat → Document → List Char → Option Document
  | 0, _, _ => none
  | n + 1, doc, cs =>
    match skipLines false cs with
    | none => none
    | some [] => some doc
    | some cs =>
      match statement? doc cs with
      | none => none
      | some (doc, rest) => (endLine? rest).bind (statements? n doc)

/-- Writes every line end as a single line feed. -/
def unifyBreaks : List Char → List Char
  | '\r' :: '\n' :: rest => '\n' :: unifyBreaks rest
  | c :: rest => c :: unifyBreaks rest
  | [] => []

/-- The document without a byte order mark. -/
def dropMark : List Char → List Char
  | '\ufeff' :: rest => rest
  | rest => rest

/-- Reads a whole document. -/
def read? (s : String) : Option Data :=
  let cs := dropMark (unifyBreaks s.toList)
  (statements? (cs.length + 1) ⟨[], []⟩ cs).map fun doc => .record (entriesToData doc.entries)

end QueryCanvas.Toml
