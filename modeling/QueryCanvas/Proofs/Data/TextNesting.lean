import QueryCanvas.Proofs.Data.JsonText

/-!
# How deep a written document nests

How many arrays and objects nest in a JSON text is counted on the text itself, by its brackets and
braces outside quoted texts.  A written document nests exactly as many as lists and records nest in
the tree, whatever its texts hold.
-/

set_option autoImplicit false

namespace QueryCanvas

namespace Json

/-! ## Counting brackets and braces -/

/-- What has been seen of a text: whether the end lies inside a quoted text or behind a backslash in
one, how many brackets and braces are open, and how many were open at most. -/
structure Brackets where
  inText : Bool
  escaped : Bool
  level : Nat
  deepest : Nat

namespace Brackets

/-- Goes on by one character. -/
def step (s : Brackets) (c : Char) : Brackets :=
  if s.escaped then { s with escaped := false }
  else if s.inText then
    if c = '\\' then { s with escaped := true }
    else if c = '"' then { s with inText := false }
    else s
  else if c = '"' then { s with inText := true }
  else if c = '[' ∨ c = '\x7b' then
    { s with level := s.level + 1, deepest := max s.deepest (s.level + 1) }
  else if c = ']' ∨ c = '\x7d' then { s with level := s.level - 1 }
  else s

/-- Between two values, with so many brackets open and so many at most before. -/
def between (level deepest : Nat) : Brackets := ⟨false, false, level, deepest⟩

end Brackets

/-- How many arrays and objects nest in a text: the most brackets and braces that are open at once
outside quoted texts. -/
def textNesting (s : String) : Nat :=
  (s.toList.foldl Brackets.step (.between 0 0)).deepest

open Brackets

/-! ## Written documents -/

/-- A text that opens at most `n` brackets and closes as many. -/
def Deepens (text : List Char) (n : Nat) : Prop :=
  ∀ level deepest, level ≤ deepest →
    text.foldl step (between level deepest) = between level (max deepest (level + n))

theorem step_numeral {c : Char} (h : isNumeral c = true ∨ isSpace c = true ∨ c = ',' ∨ c = ':')
    (level deepest : Nat) : step (between level deepest) c = between level deepest := by
  have hne : c ≠ '"' ∧ c ≠ '[' ∧ c ≠ ']' ∧ c ≠ '\x7b' ∧ c ≠ '\x7d' := by
    refine ⟨?_, ?_, ?_, ?_, ?_⟩ <;>
      (rintro rfl; revert h; decide)
  simp [step, between, hne]

theorem deepens_of_plain {text : List Char}
    (h : ∀ c ∈ text, isNumeral c = true ∨ isSpace c = true ∨ c = ',' ∨ c = ':') :
    Deepens text 0 := by
  intro level deepest hle
  rw [Nat.add_zero, Nat.max_eq_left hle]
  induction text with
  | nil => rfl
  | cons c cs ih =>
    rw [List.foldl_cons, step_numeral (h c List.mem_cons_self)]
    exact ih fun d hd => h d (List.mem_cons_of_mem _ hd)

theorem deepens_append {front back : List Char} {m n : Nat} (hf : Deepens front m)
    (hb : Deepens back n) : Deepens (front ++ back) (max m n) := by
  intro level deepest hle
  rw [List.foldl_append, hf level deepest hle, hb level _ (by omega)]
  congr 1
  omega

theorem foldl_escape (c : Char) (level deepest : Nat) :
    (escape c).foldl step ⟨true, false, level, deepest⟩ = ⟨true, false, level, deepest⟩ := by
  unfold escape
  split
  iterate 7 rfl
  split
  · rename_i hlow
    have hmark : ∀ n < 16, hexMark n ≠ '\\' ∧ hexMark n ≠ '"' := by decide
    have hone := hmark (c.toNat / 16) (by omega)
    have htwo := hmark (c.toNat % 16) (by omega)
    simp [step, hone, htwo]
  · have hslash : c ≠ '\\' := by assumption
    have hquote : c ≠ '"' := by assumption
    simp [step, hslash, hquote]

theorem deepens_quote (s : String) : Deepens (quote s) 0 := by
  intro level deepest hle
  have hinner : ∀ cs : List Char, (cs.flatMap escape).foldl step ⟨true, false, level, deepest⟩
      = ⟨true, false, level, deepest⟩ := by
    intro cs
    induction cs with
    | nil => rfl
    | cons c cs ih => rw [List.flatMap_cons, List.foldl_append, foldl_escape, ih]
  have hopen : step (between level deepest) '"' = ⟨true, false, level, deepest⟩ := rfl
  rw [quote, List.cons_append, List.foldl_cons, hopen, List.foldl_append, hinner, Nat.add_zero,
    Nat.max_eq_left hle]
  rfl

/-- The deepest of some numbers. -/
def deepestOf (ns : List Nat) : Nat := ns.foldr max 0

theorem deepens_members {gap last : List Char} (hgap : gap.all isSpace = true)
    (hlast : last.all isSpace = true) {texts : List (List Char)} {ns : List Nat}
    (h : List.Forall₂ Deepens texts ns) :
    Deepens ([','].intercalate (texts.map (gap ++ ·)) ++ last) (deepestOf ns) := by
  have hspace : ∀ {cs : List Char}, cs.all isSpace = true → Deepens cs 0 := fun hcs =>
    deepens_of_plain fun c hc => .inr (.inl (List.all_eq_true.1 hcs c hc))
  induction h with
  | nil => simpa [deepestOf] using hspace hlast
  | @cons text n texts ns hone hrest ih =>
    have hfirst := deepens_append (hspace hgap) hone
    cases hrest with
    | nil =>
      have := deepens_append hfirst (hspace hlast)
      simpa [deepestOf] using this
    | cons hnext hmore =>
      have hcomma : Deepens [','] 0 := deepens_of_plain (by simp)
      have := deepens_append (deepens_append hfirst hcomma) ih
      simpa [deepestOf, List.intercalate] using this

/-- An opening and a closing mark nest what stands between them one deeper. -/
theorem deepens_marks {opening closing : Char} {inner : List Char} {n : Nat}
    (hopen : opening = '[' ∨ opening = '\x7b') (hclose : closing = ']' ∨ closing = '\x7d')
    (h : Deepens inner n) : Deepens (opening :: inner ++ [closing]) (n + 1) := by
  intro level deepest hle
  have hfirst : step (between level deepest) opening
      = between (level + 1) (max deepest (level + 1)) := by
    rcases hopen with rfl | rfl <;> rfl
  have hlast : ∀ m, step (between (level + 1) m) closing = between level m := by
    rcases hclose with rfl | rfl <;> exact fun _ => rfl
  rw [List.cons_append, List.foldl_cons, hfirst, List.foldl_append,
    h (level + 1) _ (Nat.le_max_right _ _), List.foldl_cons, List.foldl_nil, hlast]
  congr 1
  omega

theorem deepens_enclose {opening closing : Char} (hopen : opening = '[' ∨ opening = '\x7b')
    (hclose : closing = ']' ∨ closing = '\x7d') (level : Option Nat) {texts : List (List Char)}
    {ns : List Nat} (h : List.Forall₂ Deepens texts ns) :
    Deepens (enclose opening closing level texts) (deepestOf ns + 1) := by
  cases h with
  | nil =>
    have hempty : Deepens [] 0 := deepens_of_plain (by simp)
    simpa [enclose, deepestOf] using deepens_marks hopen hclose hempty
  | cons hone hrest =>
    obtain ⟨gap, last, hgap, hlast, htext⟩ :=
      enclose_eq opening closing level (List.cons_ne_nil _ _)
    rw [htext, membersText, ← List.cons_append]
    exact deepens_marks hopen hclose (deepens_members hgap hlast (.cons hone hrest))

theorem deepestOf_map_nesting (items : List Data) :
    deepestOf (items.map Data.nesting) = Data.nesting.nestingIn items := by
  induction items with
  | nil => rfl
  | cons d rest ih => rw [Data.nesting.nestingIn, ← ih]; rfl

theorem deepestOf_map_nestingOf (fields : List (String × Data)) :
    deepestOf (fields.map (·.2.nesting)) = Data.nesting.nestingOf fields := by
  induction fields with
  | nil => rfl
  | cons f rest ih => rw [Data.nesting.nestingOf, ← ih]; rfl

theorem deepens_numeral {text : List Char} (h : text.all isNumeral = true) : Deepens text 0 :=
  deepens_of_plain fun c hc => .inl (List.all_eq_true.1 h c hc)

/-- The text of a field opens what the text of its value opens. -/
theorem deepens_field {level : Option Nat} {f : String × Data} {n : Nat}
    (h : Deepens (write level f.2) n) : Deepens (writeField level f) n := by
  have hmark : Deepens (':' :: (if level.isSome then [' '] else [])) 0 :=
    deepens_of_plain (by split <;> simp [isSpace])
  have := deepens_append (deepens_append (deepens_quote f.1) hmark) h
  simpa [writeField] using this

mutual

/-- The text of a tree opens as many brackets and braces as lists and records nest in the tree. -/
theorem deepens_write : (level : Option Nat) → (d : Data) → Deepens (write level d) d.nesting
  | level, .null => by
    intro l m hle
    simp [write, Data.nesting, step, between, hle]
  | level, .unusable => by
    intro l m hle
    simp [write, Data.nesting, step, between, hle]
  | level, .bool b => by
    intro l m hle
    cases b <;> simp [write, Data.nesting, step, between, hle]
  | level, .whole n => by
    simpa only [write, Data.nesting] using
      deepens_numeral (List.all_eq_true.2 fun c hc => isNumeral_of_mem_toString hc)
  | level, .double x => by
    simpa only [write, Data.nesting] using
      deepens_numeral (all_isNumeral_write doubleLayout x.shortest)
  | level, .text s => by
    simpa only [write, Data.nesting] using deepens_quote s
  | level, .list items => by
    rw [write, writeList_eq_map, Data.nesting, ← deepestOf_map_nesting]
    exact deepens_enclose (.inl rfl) (.inl rfl) level (deepens_items (level.map (· + 1)) items)
  | level, .record fields => by
    rw [write, writeFields_eq_map, Data.nesting, ← deepestOf_map_nestingOf]
    exact deepens_enclose (.inr rfl) (.inr rfl) level (deepens_fields (level.map (· + 1)) fields)

theorem deepens_items : (level : Option Nat) → (items : List Data) →
    List.Forall₂ Deepens (items.map (write level)) (items.map Data.nesting)
  | _, [] => .nil
  | level, d :: rest => .cons (deepens_write level d) (deepens_items level rest)

theorem deepens_fields : (level : Option Nat) → (fields : List (String × Data)) →
    List.Forall₂ Deepens (fields.map (writeField level)) (fields.map (·.2.nesting))
  | _, [] => .nil
  | level, (_, d) :: rest =>
    .cons (deepens_field (deepens_write level d)) (deepens_fields level rest)

end

/-- A written document nests as many arrays and objects as the tree nests lists and records. -/
theorem textNesting_write (level : Option Nat) (d : Data) :
    textNesting (String.ofList (write level d)) = d.nesting := by
  rw [textNesting, String.toList_ofList, deepens_write level d 0 0 (Nat.le_refl 0)]
  exact (Nat.max_eq_right (Nat.zero_le _)).trans (Nat.zero_add _)

end Json
end QueryCanvas
