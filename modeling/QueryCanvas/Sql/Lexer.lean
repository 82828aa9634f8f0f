import QueryCanvas.Data.Json
import QueryCanvas.Sql.Token
import QueryCanvas.Text.Blank

/-!
# Cutting a query into tokens

The text of a query is read from its beginning, one token or one run of blank characters or
comments at a time.  Which characters make up words, quotes and operators depends on the dialect.
The text fails to be cut if a quote or a comment is left open.
-/

set_option autoImplicit false

namespace QueryCanvas.Sql.Lexer

/-- A reader of something at the beginning of a text; it gives what it read and the rest. -/
abbrev Reader (α : Type) := List Char → Option (α × List Char)

/-- Puts a character in front of what was read. -/
def prepend (c : Char) (read : Option (List Char × List Char)) : Option (List Char × List Char) :=
  read.map fun r => (c :: r.1, r.2)

/-! ## Comments -/

/-- Skips a comment up to the end of its line. -/
def skipLine (cs : List Char) : List Char := (cs.dropWhile (· ≠ '\n')).drop 1

/-- Skips a comment with the comments nested in it, from behind its opening mark.  `depth` is the
number of open ones besides it, and `last` the character before. -/
def skipComment? (depth : Nat) (last : Char) : List Char → Option (List Char)
  | [] => none
  | c :: rest =>
    if last == '/' && c == '*' then skipComment? (depth + 1) c rest
    else if last == '*' && c == '/' then
      match depth with
      | 0 => some rest
      | depth + 1 => skipComment? depth c rest
    else skipComment? depth c rest

/-! ## Texts in quotes -/

/-- What a backslash and a character stand for in a text. -/
def backslash (d : Dialect) (c : Char) : List Char :=
  match c with
  | '0' => ['\x00']
  | 'a' => ['\x07']
  | 'b' => ['\x08']
  | 'f' => ['\x0c']
  | 'n' => ['\n']
  | 'r' => ['\r']
  | 't' => ['\t']
  | 'Z' => ['\x1a']
  | c => if d = .mysql && (c == '%' || c == '_') then ['\\', c] else [c]

/-- Reads a text from behind its opening mark.  A doubled closing mark stands for itself. -/
def body? (d : Dialect) (close : Char) (escapes : Bool) : Reader (List Char)
  | [] => none
  | c :: rest =>
    if c == close then
      match rest with
      | c' :: rest' =>
        if c' == close then prepend c (body? d close escapes rest') else some ([], c' :: rest')
      | [] => some ([], [])
    else if c == '\\' && escapes then
      match rest with
      | e :: rest' => (body? d close escapes rest').map fun r => (backslash d e ++ r.1, r.2)
      | [] => none
    else prepend c (body? d close escapes rest)

/-- The character of a code point, which must not be zero. -/
def character? (n : Nat) : Option Char :=
  if n.isValidChar && n ≠ 0 then some (Char.ofNat n) else none

/-- The character of a code point of a single byte below 128. -/
def asciiCharacter? (n : Nat) : Option Char := if n < 128 then character? n else none

def isOctal (c : Char) : Bool := '0' ≤ c && c ≤ '7'

/-- The number of digits in the given base. -/
def digitsIn (base : Nat) (cs : List Char) : Nat :=
  cs.foldl (fun n c => n * base + (Json.hexDigit? c).getD 0) 0

def isHex (c : Char) : Bool := (Json.hexDigit? c).isSome

/-- Puts a character that may be missing in front of what was read. -/
def prepend? (c : Option Char) (read : Option (List Char × List Char)) :
    Option (List Char × List Char) :=
  c.bind fun c => prepend c read

/-- The character of exactly these hexadecimal digits. -/
def hexCharacter? (cs : List Char) : Option Char :=
  if cs.all isHex then character? (digitsIn 16 cs) else none

/-- Reads a text with the prefix `E` from behind its opening quote. -/
def escapedBody? : Reader (List Char)
  | [] => none
  | '\'' :: '\'' :: rest => prepend '\'' (escapedBody? rest)
  | '\'' :: rest => some ([], rest)
  | '\\' :: 'b' :: rest => prepend '\x08' (escapedBody? rest)
  | '\\' :: 'f' :: rest => prepend '\x0c' (escapedBody? rest)
  | '\\' :: 'n' :: rest => prepend '\n' (escapedBody? rest)
  | '\\' :: 'r' :: rest => prepend '\r' (escapedBody? rest)
  | '\\' :: 't' :: rest => prepend '\t' (escapedBody? rest)
  | '\\' :: 'u' :: a :: b :: c :: d :: rest =>
    prepend? (hexCharacter? [a, b, c, d]) (escapedBody? rest)
  | '\\' :: 'U' :: a :: b :: c :: d :: e :: f :: g :: h :: rest =>
    prepend? (hexCharacter? [a, b, c, d, e, f, g, h]) (escapedBody? rest)
  | '\\' :: 'x' :: a :: b :: rest =>
    if isHex a && isHex b then
      prepend? (asciiCharacter? (digitsIn 16 [a, b])) (escapedBody? rest)
    else if isHex a then prepend? (asciiCharacter? (digitsIn 16 [a])) (escapedBody? (b :: rest))
    else prepend 'x' (escapedBody? (a :: b :: rest))
  | '\\' :: a :: b :: c :: rest =>
    if isOctal a && isOctal b && isOctal c then
      prepend? (asciiCharacter? (digitsIn 8 [a, b, c] % 256)) (escapedBody? rest)
    else if isOctal a && isOctal b then
      prepend? (asciiCharacter? (digitsIn 8 [a, b])) (escapedBody? (c :: rest))
    else if isOctal a then
      prepend? (asciiCharacter? (digitsIn 8 [a])) (escapedBody? (b :: c :: rest))
    else prepend a (escapedBody? (b :: c :: rest))
  | '\\' :: a :: rest =>
    if isOctal a then prepend? (asciiCharacter? (digitsIn 8 [a])) (escapedBody? rest)
    else prepend a (escapedBody? rest)
  | c :: rest => if c == '\\' then none else prepend c (escapedBody? rest)

/-- Reads a text with the prefix `U&` from behind its opening quote. -/
def unicodeBody? : Reader (List Char)
  | [] => none
  | '\'' :: '\'' :: rest => prepend '\'' (unicodeBody? rest)
  | '\'' :: rest => some ([], rest)
  | '\\' :: '\\' :: rest => prepend '\\' (unicodeBody? rest)
  | '\\' :: '+' :: a :: b :: c :: d :: e :: f :: rest =>
    prepend? (hexCharacter? [a, b, c, d, e, f]) (unicodeBody? rest)
  | '\\' :: a :: b :: c :: d :: rest =>
    prepend? (hexCharacter? [a, b, c, d]) (unicodeBody? rest)
  | c :: rest => if c == '\\' then none else prepend c (unicodeBody? rest)

/-- Reads up to a closing text. -/
def until? (close : List Char) : Reader (List Char)
  | [] => none
  | c :: rest =>
    if close.isPrefixOf (c :: rest) then some ([], (c :: rest).drop close.length)
    else prepend c (until? close rest)

/-! ## Words and numbers -/

def wordToken (cs : List Char) : Token := .word (.bare (String.ofList cs))

/-- Reads a bare word whose first characters have been read.  If it consists of digits and points,
it is a number. -/
def word (d : Dialect) (first cs : List Char) : Token × List Char :=
  let written := first ++ cs.takeWhile d.continuesWord
  let rest := cs.dropWhile d.continuesWord
  let isPart (c : Char) : Bool := c.isDigit || c == '.'
  if written.all isPart then
    (.number (String.ofList (written ++ rest.takeWhile isPart)) false, rest.dropWhile isPart)
  else (wordToken written, rest)

/-- The exponent at the beginning of a text, if there is one. -/
def exponent : List Char → List Char
  | e :: rest =>
    if e == 'e' || e == 'E' then
      let sign := match rest with
        | '+' :: _ => ['+']
        | '-' :: _ => ['-']
        | _ => []
      let digits := (rest.drop sign.length).takeWhile Char.isDigit
      if digits.isEmpty then [] else e :: sign ++ digits
    else []
  | [] => []

/-- Reads a number, or a point that stands alone. -/
def number (d : Dialect) (cs : List Char) : Token × List Char :=
  let whole := cs.takeWhile Char.isDigit
  let rest := cs.dropWhile Char.isDigit
  match whole, rest with
  | ['0'], 'x' :: rest =>
    (.text .hex (String.ofList (rest.takeWhile isHex)), rest.dropWhile isHex)
  | _, _ =>
    let (point, rest) := match rest with
      | '.' :: rest => (['.'], rest)
      | rest => ([], rest)
    let digits := whole ++ point ++ rest.takeWhile Char.isDigit
    let rest := rest.dropWhile Char.isDigit
    if digits = ['.'] then (.mark ".", rest)
    else
      let power := exponent rest
      let rest := rest.drop power.length
      let tail := if d = .mysql && power.isEmpty then rest.takeWhile d.continuesWord else []
      if !tail.isEmpty then (wordToken (digits ++ tail), rest.drop tail.length)
      else
        let written := String.ofList (digits ++ power)
        match rest with
        | 'L' :: rest => (.number written true, rest)
        | rest => (.number written false, rest)

/-! ## Marks -/

/-- The marks of the language, no mark before a longer one that begins with it.  In a dialect that
has operators of one's own, some of them can be extended to one. -/
def marks : List (String × Bool) :=
  [("||/", true), ("->>", true), ("<=>", true), ("!~~*", false), ("!~~", false), ("!~*", false),
   ("~~*", true), ("#>>", true),
   ("||", true), ("|/", true), ("->", true), ("=>", false), ("==", false), ("!=", false),
   ("!!", false), ("!~", false), ("<=", true), ("<>", true), ("<<", true), ("<@", true),
   (">=", true), (">>", true), ("::", false), (":=", false), ("&&", true), ("^@", false),
   ("~~", true), ("~*", true), ("#>", true), ("#-", true), ("@>", false), ("@?", false),
   ("@@", false),
   ("|", true), ("-", true), ("=", false), ("!", false), ("<", true), (">", true), (":", false),
   ("&", true), ("^", false), ("~", true), ("#", true), ("@", false), ("+", false), ("*", false),
   ("/", false), ("%", true), ("(", false), (")", false), (",", false), (";", false),
   ("\\", false), ("[", false), ("]", false), ("\x7b", false), ("\x7d", false)]

/-- The one name of a mark that has two spellings. -/
def markName (s : String) : String := if s = "<>" then "!=" else s

/-- Reads a mark. -/
def mark? (d : Dialect) (cs : List Char) : Option (Token × List Char) :=
  (marks.find? fun m => m.1.toList.isPrefixOf cs).map fun (s, extends?) =>
    let rest := cs.drop s.length
    let extension := if extends? then rest.takeWhile d.extendsOperator else []
    if extension.isEmpty then (.mark (markName s), rest)
    else (.custom (s ++ String.ofList extension), rest.drop extension.length)

/-! ## The step -/

/-- Whether a word with `#` or `@` in front begins here: after the given sign, with the next
character. -/
def startsSigned (d : Dialect) (sign next : Char) : Bool :=
  d.startsWord sign &&
    (if sign == '@' then !" '\"`".toList.contains next else next ≠ ' ')

/-- Reads a text in quotes as a token. -/
def textToken (kind : TextKind) (read : Option (List Char × List Char)) :
    Option (Option Token × List Char) :=
  read.map fun r => (some (.text kind (String.ofList r.1)), r.2)

/-- A token that was read. -/
def token (r : Token × List Char) : Option (Option Token × List Char) := some (some r.1, r.2)

/-- Reads a placeholder or a text that begins with a dollar sign. -/
def dollar? : Reader (Option Token)
  | '$' :: rest => textToken (.dollar "") (until? ['$', '$'] rest)
  | cs =>
    let isTag (c : Char) : Bool := Text.isLetter c || Text.isNumeral c || c.isDigit || c == '_'
    let tag := cs.takeWhile isTag
    match cs.dropWhile isTag with
    | '$' :: rest =>
      textToken (.dollar (String.ofList tag)) (until? ('$' :: tag ++ ['$']) rest)
    | rest => token (.placeholder (String.ofList ('$' :: tag)), rest)

/-- Whether texts can have a prefix `B`. -/
def hasByteTexts (d : Dialect) : Bool := d ∈ [.generic, .postgresql, .mysql]

/-- Whether texts can have a prefix `U&`. -/
def hasUnicodeTexts (d : Dialect) : Bool := d ∈ [.generic, .postgresql]

/-- Reads a text in quotes with a prefix, if one begins here. -/
def prefixed? (d : Dialect) : List Char → Option (Option (Option Token × List Char))
  | c :: '\'' :: rest =>
    if (c == 'n' || c == 'N') then
      some (textToken .national (body? d '\'' d.hasBackslash rest))
    else if (c == 'e' || c == 'E') then some (textToken .escaped (escapedBody? rest))
    else if (c == 'x' || c == 'X') then some (textToken .hex (body? d '\'' true rest))
    else if (c == 'b' || c == 'B') && hasByteTexts d then
      some (textToken .bytes (body? d '\'' false rest))
    else if (c == 'r' || c == 'R') && d = .generic then
      some (textToken .raw (body? d '\'' false rest))
    else none
  | c :: '"' :: rest =>
    if (c == 'b' || c == 'B') && hasByteTexts d then
      some (textToken .doubleBytes (body? d '"' false rest))
    else if (c == 'r' || c == 'R') && d = .generic then
      some (textToken .doubleRaw (body? d '"' false rest))
    else none
  | c :: '&' :: '\'' :: rest =>
    if (c == 'u' || c == 'U') && hasUnicodeTexts d then
      some (textToken .unicode (unicodeBody? rest))
    else none
  | _ => none

/-- Reads a placeholder or an operator that begins with a question mark. -/
def question (d : Dialect) (cs : List Char) : Token × List Char :=
  if d = .postgresql then
    match cs with
    | '|' :: rest => (.mark "?|", rest)
    | '&' :: rest => (.mark "?&", rest)
    | rest => (.mark "?", rest.drop 1)
  else
    let digits := cs.takeWhile fun c => c.isDigit || Text.isNumeral c
    (.placeholder (String.ofList ('?' :: digits)), cs.drop digits.length)

/-- Reads what begins with a character that is neither a letter nor blank. -/
def sign? (d : Dialect) (c : Char) (rest : List Char) : Option (Option Token × List Char) :=
  match c, rest with
  | '-', '-' :: rest => some (none, skipLine rest)
  | '/', '*' :: rest => (skipComment? 0 ' ' rest).map (none, ·)
  | '/', '/' :: rest =>
    if d = .generic || d = .duckdb then token (.mark "//", rest)
    else token (.mark "/", '/' :: rest)
  | '\'', rest => textToken .plain (body? d '\'' d.hasBackslash rest)
  | '?', rest => token (question d rest)
  | '#', rest =>
    match d, rest with
    | .mysql, rest => some (none, skipLine rest)
    | d, next :: rest =>
      if next ≠ '-' && next ≠ '>' && startsSigned d '#' next then token (word d ['#', next] rest)
      else (mark? d ('#' :: next :: rest)).bind token
    | _, [] => token (.mark "#", [])
  | '@', '@' :: next :: rest =>
    if d.startsWord '@' && next ≠ ' ' then token (word d ['@', '@', next] rest)
    else token (.mark "@@", next :: rest)
  | '@', next :: rest =>
    if next ≠ '>' && next ≠ '?' && next ≠ '@' && startsSigned d '@' next then
      token (word d ['@', next] rest)
    else (mark? d ('@' :: next :: rest)).bind token
  | c, rest =>
    if c.isDigit || c == '.' then token (number d (c :: rest))
    else if d.startsWord c && c ≠ '@' then token (word d [c] rest)
    else if c == '$' then dollar? rest
    else token ((mark? d (c :: rest)).getD (.unknown c, rest))

/-- Reads one token, or blanks or a comment, for which no token is given. -/
def step? (d : Dialect) : Reader (Option Token)
  | [] => none
  | c :: rest =>
    match prefixed? d (c :: rest) with
    | some read => read
    | none =>
      if d.quotesWord c then
        (body? d (closingMark c) false rest).map fun r =>
          (some (.word ⟨String.ofList r.1, some c⟩), r.2)
      else if c == '"' then textToken .doubleQuoted (body? d '"' d.hasBackslash rest)
      else if Text.isBlank c && !d.startsWord c then some (none, rest)
      else sign? d c rest

/-- Cuts a text into tokens.  The first argument bounds the number of steps. -/
def tokens? (d : Dialect) : Nat → List Char → Option (List Token)
  | _, [] => some []
  | 0, _ => none
  | n + 1, cs =>
    match step? d cs with
    | none => none
    | some (t, rest) => (tokens? d n rest).map (t.toList ++ ·)

end Lexer

/-- The tokens of a text; none if a quote or a comment is left open. -/
def tokenize? (d : Dialect) (s : String) : Option (List Token) :=
  Lexer.tokens? d s.length s.toList

end QueryCanvas.Sql
