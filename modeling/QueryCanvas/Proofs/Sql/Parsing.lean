import QueryCanvas.Sql.Query

/-!
# What a parser takes off the front

Each parser reads its part and hands the rest of the tokens back.  The parts that may be missing are
told for the tokens on which they are: behind the last token, before another mark, and before a word
that is another keyword.
-/

set_option autoImplicit false

namespace QueryCanvas.Sql

namespace Parser

variable {α β : Type} {rest ts : List Token} {n m : Name} {k s : String} {ks : List String}

/-! ## Running one parser after the other -/

@[simp] theorem bind_run (p : Parser α) (f : α → Parser β) (ts : List Token) :
    (p >>= f) ts = match p ts with
      | .ok (a, rest) => f a rest
      | .error e => .error e := by
  cases h : p ts <;> simp [bind, StateT.bind, Except.bind, h]

@[simp] theorem pure_run (a : α) (ts : List Token) : (pure a : Parser α) ts = .ok (a, ts) := rfl

@[simp] theorem map_run (f : α → β) (p : Parser α) (ts : List Token) :
    (f <$> p) ts = match p ts with
      | .ok (a, rest) => .ok (f a, rest)
      | .error e => .error e := by
  cases h : p ts <;>
    simp [Functor.map, StateT.map, bind, Except.bind, pure, Except.pure, h]

@[simp] theorem ite_run (c : Prop) [Decidable c] (p q : Parser α) (ts : List Token) :
    (if c then p else q) ts = if c then p ts else q ts := by
  split <;> rfl

@[simp] theorem fail_run (ts : List Token) : (fail : Parser α) ts = .error .mismatch := rfl

@[simp] theorem peek_run (ts : List Token) : peek ts = .ok (ts.head?, ts) := rfl

@[simp] theorem ahead_run (ts : List Token) : ahead ts = .ok (ts, ts) := rfl

@[simp] theorem next_run (t : Token) (rest : List Token) : next (t :: rest) = .ok (t, rest) := rfl

/-! ## Marks -/

@[simp] theorem mark?_here : mark? s (.mark s :: rest) = .ok (true, rest) := by
  simp [mark?, Token.isMark]

@[simp] theorem mark?_nil : mark? s [] = .ok (false, []) := rfl

@[simp] theorem mark?_word : mark? s (.word n :: rest) = .ok (false, .word n :: rest) := rfl

theorem mark?_absent (h : ts.head? ≠ some (.mark s)) : mark? s ts = .ok (false, ts) := by
  cases ts with
  | nil => rfl
  | cons t ts =>
    have hne : t ≠ .mark s := by simpa using h
    simp [mark?, Token.isMark, hne]

/-! ## Keywords -/

@[simp] theorem isWord_word : (Token.word n).isWord k = decide (n.folded = k) := rfl

@[simp] theorem isWord_mark : (Token.mark s).isWord k = false := rfl

@[simp] theorem words?_nil : words? (k :: ks) [] = .ok (false, []) := rfl

/-- Before another keyword none of the given ones are taken. -/
@[simp] theorem words?_absent (h : n.folded ≠ k) :
    words? (k :: ks) (.word n :: rest) = .ok (false, .word n :: rest) := by
  simp [words?, areWords, h]

@[simp] theorem word?_nil : word? k [] = .ok (false, []) := rfl

@[simp] theorem word?_mark : word? k (.mark s :: rest) = .ok (false, .mark s :: rest) := rfl

@[simp] theorem word?_absent (h : n.folded ≠ k) :
    word? k (.word n :: rest) = .ok (false, .word n :: rest) := words?_absent h

@[simp] theorem word?_here (h : n.folded = k) : word? k (.word n :: rest) = .ok (true, rest) := by
  simp [word?, words?, areWords, h]

/-- A token that is no word is none of some keywords. -/
theorem oneOf?_of_not_word {t : Token} (h : ∀ k, t.isWord k = false) :
    oneOf? ks (t :: rest) = .ok (none, t :: rest) := by
  have hfind : ks.find? t.isWord = none := List.find?_eq_none.2 fun k _ => by simp [h]
  simp [oneOf?, hfind]

theorem oneOf?_absent (h : n.folded ∉ ks) :
    oneOf? ks (.word n :: rest) = .ok (none, .word n :: rest) := by
  have hfind : ks.find? (Token.word n).isWord = none := by
    refine List.find?_eq_none.2 fun k hk hword => h ?_
    rw [isWord_word, decide_eq_true_eq] at hword
    exact hword ▸ hk
  simp [oneOf?, hfind]

/-! ## Parts that may be missing -/

@[simp] theorem after?_nil (p : Parser α) : after? k p [] = .ok (none, []) := by simp [after?]

@[simp] theorem after?_absent (p : Parser α) (h : n.folded ≠ k) :
    after? k p (.word n :: rest) = .ok (none, .word n :: rest) := by
  simp [after?, h]

theorem after?_here {p : Parser α} {a : α} (hn : n.folded = k) (hp : p ts = .ok (a, rest)) :
    after? k p (.word n :: ts) = .ok (some a, rest) := by
  simp [after?, hn, hp]

@[simp] theorem afterAll?_absent (p : Parser α) (h : n.folded ≠ k) :
    afterAll? (k :: ks) p (.word n :: rest) = .ok (none, .word n :: rest) := by
  simp [afterAll?, h]

/-- A parser that reads nothing is not repeated. -/
theorem many_none {p : Parser (Option α)} (h : p ts = .ok (none, ts)) :
    many p ts = .ok ([], ts) := by
  simp [many, repeatUpTo, h]

/-- A list ends behind its first member if no comma follows. -/
theorem list_one {trailing : Bool} {p : Parser α} {a : α} (h : p ts = .ok (a, rest))
    (hrest : rest.head? ≠ some (.mark ",")) : list trailing p ts = .ok ([a], rest) := by
  simp [list, listUpTo, goesOn, h, mark?_absent hrest]

/-! ## Names -/

/-- A word that is kept for something else is no alias. -/
theorem alias?_reserved {reserved : List String} (has : n.folded ≠ "AS")
    (h : reserved.contains n.folded = true) :
    alias? reserved (.word n :: rest) = .ok (none, .word n :: rest) := by
  simp only [alias?, bind_run, word?_absent has, Bool.false_eq_true, if_false, peek_run,
    List.head?_cons, h, if_true, pure_run]

theorem path_one (h : rest.head? ≠ some (.mark ".")) :
    path (.word n :: rest) = .ok ([n], rest) := by
  simp [path, pathUpTo, name, mark?_absent h]

theorem path_two (h : rest.head? ≠ some (.mark ".")) :
    path (.word n :: .mark "." :: .word m :: rest) = .ok ([n, m], rest) := by
  simp [path, pathUpTo, name, mark?_absent h]

end Parser

end QueryCanvas.Sql
