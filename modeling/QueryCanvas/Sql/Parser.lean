import QueryCanvas.Sql.Print

/-!
# Parsing token lists

A parser takes tokens off the front of a list.  It can fail on the tokens that it meets, or because
queries and expressions nest too deep; only the first kind of failure leads to another attempt.
-/

set_option autoImplicit false

namespace QueryCanvas.Sql

/-- Why parsing failed. -/
inductive ParseFault where
  | mismatch
  | tooDeep
deriving DecidableEq, Repr

/-- A parser takes tokens off the front of a list. -/
abbrev Parser := StateT (List Token) (Except ParseFault)

namespace Token

/-- Whether the token is the given keyword. -/
def isWord (t : Token) (keyword : String) : Bool :=
  match t with
  | .word n => n.folded = keyword
  | _ => false

def isMark (t : Token) (s : String) : Bool := t = .mark s

end Token

namespace Parser

variable {α : Type}

/-- The parser that fails. -/
def fail : Parser α := fun _ => .error .mismatch

/-- The next token, left in place. -/
def peek : Parser (Option Token) := fun ts => .ok (ts.head?, ts)

/-- The tokens ahead, left in place. -/
def ahead : Parser (List Token) := fun ts => .ok (ts, ts)

/-- Takes the next token. -/
def next : Parser Token
  | t :: rest => .ok (t, rest)
  | [] => .error .mismatch

/-- Whether the tokens ahead begin with the given keywords. -/
def areWords : List String → List Token → Bool
  | [], _ => true
  | k :: ks, t :: ts => t.isWord k && areWords ks ts
  | _ :: _, [] => false

/-- Takes keywords if all of them are ahead, and says whether they were. -/
def words? (ks : List String) : Parser Bool := fun ts =>
  if areWords ks ts then .ok (true, ts.drop ks.length) else .ok (false, ts)

/-- Takes a keyword if it is ahead, and says whether it was. -/
def word? (k : String) : Parser Bool := words? [k]

/-- Takes one of some keywords, if one is ahead. -/
def oneOf? (ks : List String) : Parser (Option String)
  | t :: rest =>
    match ks.find? t.isWord with
    | some k => .ok (some k, rest)
    | none => .ok (none, t :: rest)
  | [] => .ok (none, [])

/-- Takes keywords, all of which have to be there. -/
def words (ks : List String) : Parser Unit := do
  if ← words? ks then return () else fail

/-- Takes a keyword, which has to be there. -/
def word (k : String) : Parser Unit := words [k]

/-- Takes one of some keywords, one of which has to be there. -/
def oneOf (ks : List String) : Parser String := do
  match ← oneOf? ks with
  | some k => return k
  | none => fail

/-- Whether a keyword is ahead. -/
def seesWord (k : String) : Parser Bool := do return areWords [k] (← ahead)

/-- Whether one of some keywords is ahead. -/
def seesOneOf (ks : List String) : Parser Bool := do
  return (← peek).any fun t => ks.any t.isWord

/-- Whether a mark is ahead. -/
def seesMark (s : String) : Parser Bool := do return (← peek).any (·.isMark s)

/-- Takes a mark if it is ahead, and says whether it was. -/
def mark? (s : String) : Parser Bool
  | t :: rest => .ok (if t.isMark s then (true, rest) else (false, t :: rest))
  | [] => .ok (false, [])

/-- Takes a mark, which has to be there. -/
def mark (s : String) : Parser Unit := do
  if ← mark? s then return () else fail

/-- Tries a parser; where the tokens do not fit, nothing is taken. -/
def attempt (p : Parser α) : Parser (Option α) := fun ts =>
  match p ts with
  | .ok (a, rest) => .ok (some a, rest)
  | .error .mismatch => .ok (none, ts)
  | .error .tooDeep => .error .tooDeep

/-- What a parser reads between parentheses. -/
def parenthesized (p : Parser α) : Parser α := do
  mark "("
  let a ← p
  mark ")"
  return a

/-- What a parser reads behind a keyword, if the keyword is there. -/
def after? (k : String) (p : Parser α) : Parser (Option α) := do
  if ← word? k then return some (← p) else return none

/-- What a parser reads behind some keywords, if they are there. -/
def afterAll? (ks : List String) (p : Parser α) : Parser (Option α) := do
  if ← words? ks then return some (← p) else return none

/-- Repeats a parser until it reads nothing, at most so often. -/
def repeatUpTo (step : Parser (Option α)) : Nat → Parser (List α)
  | 0 => return []
  | n + 1 => do
    match ← step with
    | none => return []
    | some a => return a :: (← repeatUpTo step n)

/-- Repeats a parser until it reads nothing. -/
def many (step : Parser (Option α)) : Parser (List α) := fun ts =>
  repeatUpTo step (ts.length + 1) ts

/-- Whether a list ends before this token, although a comma stands before it. -/
def endsList : Option Token → Bool
  | none => true
  | some (.mark s) => s ∈ [")", ";", "]", "\x7d"]
  | some (.word n) => Keyword.noColumnAlias.contains n.folded
  | _ => false

/-- Takes a comma and says whether a further member follows.  With `trailing` a comma may stand
behind the last member. -/
def goesOn (trailing : Bool) : Parser Bool := do
  if ← mark? "," then return !(trailing && endsList (← peek)) else return false

/-- Reads members separated by commas, at most so many. -/
def listUpTo (trailing : Bool) (item : Parser α) : Nat → Parser (List α)
  | 0 => fail
  | n + 1 => do
    let a ← item
    if ← goesOn trailing then return a :: (← listUpTo trailing item n) else return [a]

/-- Reads one or more members separated by commas. -/
def list (trailing : Bool) (item : Parser α) : Parser (List α) := fun ts =>
  listUpTo trailing item (ts.length + 1) ts

/-- Reads members separated by commas, of which there may be none before the closing mark. -/
def listBefore (trailing : Bool) (close : String) (item : Parser α) : Parser (List α) := do
  if ← seesMark close then return []
  else
    match ← ahead with
    | .mark "," :: t :: _ =>
      if trailing && t.isMark close then
        mark ","
        return []
      else list trailing item
    | _ => list trailing item

end Parser

end QueryCanvas.Sql
