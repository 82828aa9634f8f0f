import QueryCanvas.Proofs.Sql.Parsing
import QueryCanvas.Proofs.Written.Cut

/-!
# Running parsers

What a parser does with the tokens of a written query is told by the tokens it takes, the value it
gives and the number of levels of the grammar that it needs: with fewer levels left it fails as too
deep, and only then.  Optional parts of the grammar are passed over where the token ahead is none
that they begin with.
-/

set_option autoImplicit false

namespace QueryCanvas.Sql

open Sql.Parser

variable {α β : Type}

/-! ## Steps of a parser -/

theorem Parser.bind_ok {p : Parser α} {a : α} {ts rest : List Token} (hp : p ts = .ok (a, rest))
    (f : α → Parser β) : (p >>= f) ts = f a rest := by
  rw [bind_run, hp]

theorem Parser.bind_error {p : Parser α} {ts : List Token} {e : ParseFault} (hp : p ts = .error e)
    (f : α → Parser β) : (p >>= f) ts = .error e := by
  rw [bind_run, hp]

/-! ## The token ahead -/

/-- What the token ahead is, as far as the grammar asks. -/
inductive Lead where
  | none
  | word (folded : String)
  | mark (s : String)
  | number
  | text
  | other
deriving DecidableEq

/-- What the tokens begin with. -/
def lead : List Token → Lead
  | [] => .none
  | .word n :: _ => .word n.folded
  | .mark s :: _ => .mark s
  | .number .. :: _ => .number
  | .text .. :: _ => .text
  | _ :: _ => .other

/-- Tokens that begin with one of some leads begin with no other one. -/
theorem ne_of_lead {leads : List Lead} {x : Lead} {ts : List Token} (h : lead ts ∈ leads)
    (hx : x ∉ leads) : lead ts ≠ x := by
  rintro rfl
  exact hx h

variable {k s : String} {ks : List String} {ts rest : List Token}

theorem areWords_skip (h : lead ts ≠ .word k) : areWords (k :: ks) ts = false := by
  cases ts with
  | nil => rfl
  | cons t ts => cases t <;> simp_all [areWords, Token.isWord, lead]

theorem words?_skip (h : lead ts ≠ .word k) : words? (k :: ks) ts = .ok (false, ts) := by
  simp [words?, areWords_skip h]

theorem word?_skip (h : lead ts ≠ .word k) : word? k ts = .ok (false, ts) := words?_skip h

theorem head?_ne_of_lead (h : lead ts ≠ .mark s) : ts.head? ≠ some (.mark s) := by
  cases ts with
  | nil => simp
  | cons t ts =>
    rw [List.head?_cons]
    rintro ⟨⟩
    exact h rfl

theorem mark?_skip (h : lead ts ≠ .mark s) : mark? s ts = .ok (false, ts) :=
  mark?_absent (head?_ne_of_lead h)

theorem oneOf?_skip (h : ∀ k ∈ ks, lead ts ≠ .word k) : oneOf? ks ts = .ok (none, ts) := by
  cases ts with
  | nil => rfl
  | cons t ts =>
    have hnone : ks.find? t.isWord = none := by
      rw [List.find?_eq_none]
      intro k hk
      have hne := h k hk
      cases t <;> simp_all [Token.isWord, lead]
    simp [oneOf?, hnone]

theorem seesWord_skip (h : lead ts ≠ .word k) : seesWord k ts = .ok (false, ts) := by
  simp [seesWord, ahead, areWords_skip h]

theorem seesOneOf_skip (h : ∀ k ∈ ks, lead ts ≠ .word k) :
    seesOneOf ks ts = .ok (false, ts) := by
  cases ts with
  | nil => rfl
  | cons t ts =>
    have hnone : ks.any t.isWord = false := by
      rw [List.any_eq_false]
      intro k hk
      have hne := h k hk
      cases t <;> simp_all [Token.isWord, lead]
    simp [seesOneOf, peek, hnone]

theorem seesMark_skip (h : lead ts ≠ .mark s) : seesMark s ts = .ok (false, ts) := by
  cases ts with
  | nil => rfl
  | cons t ts => cases t <;> simp_all [seesMark, peek, Token.isMark, lead]

theorem after?_skip {p : Parser α} (h : lead ts ≠ .word k) : after? k p ts = .ok (none, ts) := by
  simp [after?, word?_skip h]

theorem afterAll?_skip {p : Parser α} (h : lead ts ≠ .word k) :
    afterAll? (k :: ks) p ts = .ok (none, ts) := by
  simp [afterAll?, words?_skip h]

/-! ## Keywords and marks that are there -/

/-- A bare word as a token. -/
def bare (s : String) : Token := .word (.bare s)

/-- The keywords that are written in queries. -/
def writtenKeywords : List String :=
  ["SELECT", "NULL", "AS", "FROM", "INNER", "LEFT", "RIGHT", "FULL", "JOIN", "ON", "AND", "OR",
   "WHERE", "GROUP", "BY", "HAVING", "ORDER", "ASC", "DESC", "LIMIT", "WITH", "NOT", "IN", "LIKE",
   "ILIKE", "BETWEEN", "IS", "TRUE", "FALSE", "COUNT", "SUM", "AVG", "MIN", "MAX"]

/-- A bare word without letters beyond ASCII is compared with keywords in capitals. -/
theorem folded_bare (h : s.toList.all (·.toNat < 128)) :
    (Name.bare s).folded = String.ofList (s.toList.map Char.toUpper) := by
  rw [Name.folded, Name.bare, Text.capitals, if_pos h, String.toUpper, ← String.toList_map,
    String.ofList_toList]

theorem folded_keyword (h : k ∈ writtenKeywords) : (Name.bare k).folded = k := by
  have hwritten : ∀ k ∈ writtenKeywords,
      (k.toList.all (·.toNat < 128)) ∧ String.ofList (k.toList.map Char.toUpper) = k := by decide
  rw [folded_bare (hwritten k h).1, (hwritten k h).2]

theorem lead_keyword (h : k ∈ writtenKeywords) : lead (bare k :: ts) = .word k :=
  congrArg Lead.word (folded_keyword h)

theorem isWord_keyword (h : k ∈ writtenKeywords) : (bare k).isWord k = true := by
  simp [bare, Token.isWord, folded_keyword h]

theorem word?_take (h : k ∈ writtenKeywords) : word? k (bare k :: ts) = .ok (true, ts) := by
  simp [word?, words?, areWords, isWord_keyword h]

theorem words?_take {k' : String} (h : k ∈ writtenKeywords) (h' : k' ∈ writtenKeywords) :
    words? [k, k'] (bare k :: bare k' :: ts) = .ok (true, ts) := by
  simp [words?, areWords, isWord_keyword h, isWord_keyword h']

theorem word_take (h : k ∈ writtenKeywords) : word k (bare k :: ts) = .ok ((), ts) := by
  have htake : words? [k] (bare k :: ts) = .ok (true, ts) := word?_take h
  simp [word, words, htake]

theorem oneOf?_take (h : k ∈ writtenKeywords) (hks : k ∈ ks) :
    oneOf? ks (bare k :: ts) = .ok (some k, ts) := by
  have hfind : ks.find? (bare k).isWord = some k := by
    have hword : (bare k).isWord = fun k' => decide (k = k') := by
      funext k'
      simp [bare, Token.isWord, folded_keyword h]
    rw [hword]
    induction ks with
    | nil => cases hks
    | cons k' ks ih =>
      rw [List.find?_cons]
      by_cases heq : k = k'
      · simp [heq]
      · have hmem : k ∈ ks := (List.mem_cons.1 hks).resolve_left heq
        simpa [heq] using ih hmem
  simp [oneOf?, hfind]

theorem oneOf_take (h : k ∈ writtenKeywords) (hks : k ∈ ks) :
    oneOf ks (bare k :: ts) = .ok (k, ts) := by
  simp [oneOf, oneOf?_take h hks]

theorem seesOneOf_take (h : k ∈ writtenKeywords) (hks : k ∈ ks) :
    seesOneOf ks (bare k :: ts) = .ok (true, bare k :: ts) := by
  have hany : ks.any (bare k).isWord = true := by
    rw [List.any_eq_true]
    exact ⟨k, hks, isWord_keyword h⟩
  simp [seesOneOf, peek, hany]

theorem seesWord_take (h : k ∈ writtenKeywords) :
    seesWord k (bare k :: ts) = .ok (true, bare k :: ts) := by
  simp [seesWord, ahead, areWords, isWord_keyword h]

theorem mark_take : mark s (.mark s :: ts) = .ok ((), ts) := by
  simp [mark]

/-! ## Levels of the grammar -/

/-- With `n` levels left, the parser takes all tokens up to the rest and gives the value, if it
does not need more levels than that; else it fails as too deep. -/
def Takes (n : Nat) (p : Parser α) (ts : List Token) (levels : Nat) (a : α) (rest : List Token) :
    Prop :=
  p ts = if levels ≤ n then .ok (a, rest) else .error .tooDeep

namespace Takes

variable {n levels levels' : Nat} {a : α} {b : β} {rest' : List Token}

theorem of_eq {p : Parser α} (h : p ts = .ok (a, rest)) : Takes n p ts 0 a rest := by
  rw [Takes, h, if_pos (Nat.zero_le n)]

theorem pure : Takes n (pure a : Parser α) ts 0 a ts := of_eq rfl

theorem bind {p : Parser α} {f : α → Parser β} (hp : Takes n p ts levels a rest)
    (hf : Takes n (f a) rest levels' b rest') :
    Takes n (p >>= f) ts (max levels levels') b rest' := by
  unfold Takes at *
  rw [bind_run, hp]
  by_cases hlevels : levels ≤ n
  · rw [if_pos hlevels]
    simp only [hf, Nat.max_le, hlevels, true_and]
  · rw [if_neg hlevels, if_neg fun hmax => hlevels (Nat.le_trans (Nat.le_max_left _ _) hmax)]

/-- A step that needs no level. -/
theorem step {p : Parser α} {f : α → Parser β} (hp : p ts = .ok (a, rest))
    (hf : Takes n (f a) rest levels b rest') : Takes n (p >>= f) ts levels b rest' := by
  unfold Takes at *
  rw [bind_run, hp]
  exact hf

/-- A last step that needs no level. -/
theorem last {p : Parser α} {f : α → Parser β} (hp : Takes n p ts levels a rest)
    (hf : f a rest = .ok (b, rest')) : Takes n (p >>= f) ts levels b rest' := by
  have hbind := bind hp (of_eq (n := n) hf)
  rwa [Nat.max_zero] at hbind

theorem map {p : Parser α} {f : α → β} (hp : Takes n p ts levels a rest) :
    Takes n (f <$> p) ts levels (f a) rest := by
  unfold Takes at *
  rw [map_run, hp]
  by_cases hlevels : levels ≤ n <;> simp [hlevels]

theorem attempt {p : Parser α} (hp : Takes n p ts levels a rest) :
    Takes n (attempt p) ts levels (some a) rest := by
  unfold Takes at *
  rw [Parser.attempt, hp]
  by_cases hlevels : levels ≤ n <;> simp [hlevels]

theorem after? {p : Parser α} (hk : k ∈ writtenKeywords) (hp : Takes n p ts levels a rest) :
    Takes n (after? k p) (bare k :: ts) levels (some a) rest := by
  unfold Parser.after?
  refine step (word?_take hk) ?_
  rw [if_pos rfl]
  exact last hp rfl

theorem parenthesized {p : Parser α} (hp : Takes n p ts levels a (.mark ")" :: rest)) :
    Takes n (parenthesized p) (.mark "(" :: ts) levels a rest := by
  unfold Parser.parenthesized
  refine step mark_take (last hp ?_)
  simp [mark_take]

end Takes

/-! ## Lists -/

/-- A written part of a list: its tokens, its value and the levels that it needs. -/
structure Part (α : Type) where
  tokens : List Token
  levels : Nat
  value : α

/-- The tokens of a list with commas between its members. -/
def commaTokens : List (List Token) → List Token
  | [] => []
  | [ts] => ts
  | ts :: rest => ts ++ .mark "," :: commaTokens rest

/-- The greatest of some numbers of levels. -/
def deepest (levels : List Nat) : Nat := levels.foldr max 0

theorem goesOn_skip (h : lead ts ≠ .mark ",") : goesOn false ts = .ok (false, ts) := by
  simp [goesOn, mark?_skip h]

theorem goesOn_take : goesOn false (.mark "," :: ts) = .ok (true, ts) := by
  simp [goesOn, map_run, peek]

theorem takes_listUpTo {n m : Nat} {item : Parser α} {parts : List (Part α)} (hne : parts ≠ [])
    (hlength : parts.length ≤ m) (hend : lead rest ≠ .mark ",")
    (hparts : ∀ p ∈ parts, ∀ next, lead next = .mark "," ∨ next = rest →
      Takes n item (p.tokens ++ next) p.levels p.value next) :
    Takes n (listUpTo false item m) (commaTokens (parts.map (·.tokens)) ++ rest)
      (deepest (parts.map (·.levels))) (parts.map (·.value)) rest := by
  induction parts generalizing m with
  | nil => exact (hne rfl).elim
  | cons p parts ih =>
    cases m with
    | zero => simp at hlength
    | succ m =>
      unfold listUpTo
      cases parts with
      | nil =>
        refine Takes.bind (hparts p (by simp) rest (.inr rfl)) ?_
        exact Takes.step (goesOn_skip hend) Takes.pure
      | cons q parts =>
        have hrest := ih (by simp) (by simpa using hlength)
          fun x hx => hparts x (List.mem_cons_of_mem p hx)
        have hfirst := hparts p (by simp)
          (.mark "," :: (commaTokens ((q :: parts).map (·.tokens)) ++ rest)) (.inl rfl)
        have hshape : commaTokens ((p :: q :: parts).map (·.tokens)) ++ rest =
            p.tokens ++ .mark "," :: (commaTokens ((q :: parts).map (·.tokens)) ++ rest) := by
          simp [commaTokens]
        rw [hshape]
        refine Takes.bind hfirst (Takes.step goesOn_take ?_)
        rw [if_pos rfl]
        exact Takes.last hrest rfl

theorem length_commaTokens (l : List (List Token)) :
    l.length ≤ (commaTokens l).length + 1 := by
  induction l with
  | nil => simp
  | cons ts l ih =>
    cases l with
    | nil => simp
    | cons ts' l =>
      simp only [commaTokens, List.length_append, List.length_cons] at ih ⊢
      omega

/-- Members with commas between them. -/
theorem Takes.list {n : Nat} {item : Parser α} {parts : List (Part α)} (hne : parts ≠ [])
    (hend : lead rest ≠ .mark ",")
    (hparts : ∀ p ∈ parts, ∀ next, lead next = .mark "," ∨ next = rest →
      Takes n item (p.tokens ++ next) p.levels p.value next) :
    Takes n (list false item) (commaTokens (parts.map (·.tokens)) ++ rest)
      (deepest (parts.map (·.levels))) (parts.map (·.value)) rest := by
  refine takes_listUpTo hne ?_ hend hparts
  have hlength := length_commaTokens (parts.map (·.tokens))
  rw [List.length_map] at hlength
  rw [List.length_append]
  omega

theorem takes_repeatUpTo {n m : Nat} {leads : List Lead} {step : Parser (Option α)}
    {parts : List (Part α)} (hlength : parts.length < m) (hend : step rest = .ok (none, rest))
    (hrest : lead rest ∈ leads)
    (hparts : ∀ p ∈ parts, (∀ next, lead (p.tokens ++ next) ∈ leads) ∧ ∀ next, lead next ∈ leads →
      Takes n step (p.tokens ++ next) p.levels (some p.value) next) :
    Takes n (repeatUpTo step m) ((parts.map (·.tokens)).flatten ++ rest)
      (deepest (parts.map (·.levels))) (parts.map (·.value)) rest := by
  induction parts generalizing m with
  | nil =>
    cases m with
    | zero => simp at hlength
    | succ m => exact Takes.step hend Takes.pure
  | cons p parts ih =>
    cases m with
    | zero => simp at hlength
    | succ m =>
      have hmore := ih (by simpa using hlength) fun q hq => hparts q (List.mem_cons_of_mem p hq)
      have hlead : lead ((parts.map (·.tokens)).flatten ++ rest) ∈ leads := by
        cases parts with
        | nil => exact hrest
        | cons q parts =>
          rw [List.map_cons, List.flatten_cons, List.append_assoc]
          exact (hparts q (by simp)).1 _
      rw [List.map_cons, List.flatten_cons, List.append_assoc]
      unfold repeatUpTo
      exact Takes.bind ((hparts p (by simp)).2 _ hlead) (Takes.last hmore rfl)

/-- Steps that follow each other until none is left. -/
theorem Takes.many {n : Nat} {leads : List Lead} {step : Parser (Option α)} {parts : List (Part α)}
    (hend : step rest = .ok (none, rest)) (hrest : lead rest ∈ leads)
    (hparts : ∀ p ∈ parts, p.tokens ≠ [] ∧ (∀ next, lead (p.tokens ++ next) ∈ leads) ∧
      ∀ next, lead next ∈ leads → Takes n step (p.tokens ++ next) p.levels (some p.value) next) :
    Takes n (many step) ((parts.map (·.tokens)).flatten ++ rest)
      (deepest (parts.map (·.levels))) (parts.map (·.value)) rest := by
  refine takes_repeatUpTo ?_ hend hrest fun p hp => (hparts p hp).2
  have hlength : parts.length ≤ (parts.map (·.tokens)).flatten.length := by
    clear hend hrest
    induction parts with
    | nil => simp
    | cons p parts ih =>
      have htokens := List.length_pos_iff.2 (hparts p (by simp)).1
      have hmore := ih fun q hq => hparts q (List.mem_cons_of_mem p hq)
      simp only [List.map_cons, List.flatten_cons, List.length_append, List.length_cons] at hmore ⊢
      omega
  rw [List.length_append]
  omega

end QueryCanvas.Sql
