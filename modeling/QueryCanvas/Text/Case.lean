/-!
# Case folding

Identifiers are compared without regard to the case of ASCII letters; all other characters are
compared as they are.  Words of the query language are compared in upper case, where a few letters
outside ASCII have an upper-case form that is ASCII text.
-/

set_option autoImplicit false

namespace QueryCanvas.Text

/-- Equality that ignores the case of ASCII letters. -/
def sameName (a b : String) : Bool :=
  a.toLower == b.toLower

theorem sameName_refl (a : String) : sameName a a = true := by
  simp [sameName]

theorem sameName_comm (a b : String) : sameName a b = sameName b a := by
  simp only [sameName]
  exact Bool.beq_comm

theorem sameName_trans {a b c : String} (h : sameName a b = true) (k : sameName b c = true) :
    sameName a c = true := by
  simp only [sameName, beq_iff_eq] at *
  exact h.trans k

/-- The letters outside ASCII whose upper-case form is ASCII text, with that form. -/
def asciiCapitals : List (Char × String) :=
  [('ß', "SS"), ('ı', "I"), ('ſ', "S"), ('ﬀ', "FF"), ('ﬁ', "FI"), ('ﬂ', "FL"), ('ﬃ', "FFI"),
   ('ﬄ', "FFL"), ('ﬅ', "ST"), ('ﬆ', "ST")]

/-- The upper-case form of a character as far as it is ASCII text; other characters stay. -/
def capital (c : Char) : String :=
  match asciiCapitals.find? (·.1 == c) with
  | some entry => entry.2
  | none => c.toUpper.toString

/-- The upper-case form in which words of the query language are compared. -/
def capitals (s : String) : String :=
  if s.toList.all (·.toNat < 128) then s.toUpper else String.join (s.toList.map capital)

/-- Whether `part` occurs in `whole`, both as lists of characters. -/
def isPart (part : List Char) : List Char → Bool
  | [] => part.isEmpty
  | c :: rest => part.isPrefixOf (c :: rest) || isPart part rest

/-- Whether one text occurs inside another. -/
def contains (whole part : String) : Bool :=
  isPart part.toList whole.toList

end QueryCanvas.Text
