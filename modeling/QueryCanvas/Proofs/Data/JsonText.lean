import Mathlib.Data.List.Forall2
import Mathlib.Order.MinMax
import QueryCanvas.Proofs.Data.Numerals

/-!
# Written documents are read back

A document that is written as JSON, on one line or with every member on a line of its own, is read
back as the same tree.  Reading goes down a bounded number of lists and records only; what lies
deeper comes back as an unusable value.  A double has to be one whose shortest numeral reads back,
which is all that is asked of the numbers with a point.
-/

set_option autoImplicit false

namespace QueryCanvas

namespace Data

/-! ## Depth of a tree -/

/-- How deep lists and records nest in a tree. -/
def nesting : Data → Nat
  | list items => nestingIn items + 1
  | record fields => nestingOf fields + 1
  | _ => 0
where
  nestingIn : List Data → Nat
    | [] => 0
    | d :: rest => max (nesting d) (nestingIn rest)
  nestingOf : List (String × Data) → Nat
    | [] => 0
    | (_, d) :: rest => max (nesting d) (nestingOf rest)

/-- The tree down to a number of nested lists and records, with unusable values in place of the
deeper ones. -/
def clip : Data → Nat → Data
  | list _, 0 => unusable
  | record _, 0 => unusable
  | list items, depth + 1 => list (clipIn items depth)
  | record fields, depth + 1 => record (clipOf fields depth)
  | d, _ => d
where
  clipIn : List Data → Nat → List Data
    | [], _ => []
    | d :: rest, depth => clip d depth :: clipIn rest depth
  clipOf : List (String × Data) → Nat → List (String × Data)
    | [], _ => []
    | (name, d) :: rest, depth => (name, clip d depth) :: clipOf rest depth

theorem nestingIn_le_iff {items : List Data} {k : Nat} :
    nesting.nestingIn items ≤ k ↔ ∀ d ∈ items, d.nesting ≤ k := by
  induction items with
  | nil => simp [nesting.nestingIn]
  | cons d rest ih => simp [nesting.nestingIn, ih]

theorem nestingOf_le_iff {fields : List (String × Data)} {k : Nat} :
    nesting.nestingOf fields ≤ k ↔ ∀ f ∈ fields, f.2.nesting ≤ k := by
  induction fields with
  | nil => simp [nesting.nestingOf]
  | cons f rest ih => simp [nesting.nestingOf, ih]

theorem clipIn_eq_map (items : List Data) (depth : Nat) :
    clip.clipIn items depth = items.map (·.clip depth) := by
  induction items with
  | nil => rfl
  | cons d rest ih => simp [clip.clipIn, ih]

theorem clipOf_eq_map (fields : List (String × Data)) (depth : Nat) :
    clip.clipOf fields depth = fields.map fun f => (f.1, f.2.clip depth) := by
  induction fields with
  | nil => rfl
  | cons f rest ih => simp [clip.clipOf, ih]

mutual

/-- A tree that does not nest too deeply is left as it is. -/
theorem clip_eq_self : (d : Data) → {depth : Nat} → d.nesting ≤ depth → d.clip depth = d
  | list items, 0, h => absurd h (Nat.not_succ_le_zero _)
  | record fields, 0, h => absurd h (Nat.not_succ_le_zero _)
  | list items, depth + 1, h => by
    rw [clip, clipIn_eq_self items (Nat.le_of_succ_le_succ h)]
  | record fields, depth + 1, h => by
    rw [clip, clipOf_eq_self fields (Nat.le_of_succ_le_succ h)]
  | null, _, _ | bool _, _, _ | whole _, _, _ | double _, _, _ | text _, _, _ | unusable, _, _ => by
    simp [clip]

theorem clipIn_eq_self : (items : List Data) → {depth : Nat} → nesting.nestingIn items ≤ depth →
    clip.clipIn items depth = items
  | [], _, _ => rfl
  | d :: rest, depth, h => by
    rw [nesting.nestingIn, Nat.max_le] at h
    rw [clip.clipIn, clip_eq_self d h.1, clipIn_eq_self rest h.2]

theorem clipOf_eq_self : (fields : List (String × Data)) → {depth : Nat} →
    nesting.nestingOf fields ≤ depth → clip.clipOf fields depth = fields
  | [], _, _ => rfl
  | (name, d) :: rest, depth, h => by
    rw [nesting.nestingOf, Nat.max_le] at h
    rw [clip.clipOf, clip_eq_self d h.1, clipOf_eq_self rest h.2]

end

end Data

namespace Json

/-! ## Texts -/

theorem hexDigit?_hexMark : ∀ n < 16, hexDigit? (hexMark n) = some n := by decide

/-- An escaped character is read back, and does not look like the end of the text. -/
theorem textChar?_escape (c : Char) (rest : List Char) :
    textChar? (escape c ++ rest) = some (some c, rest) := by
  unfold escape
  split
  iterate 7 rfl
  split
  · rename_i hlow
    have hvalue : hex4? '0' '0' (hexMark (c.toNat / 16)) (hexMark (c.toNat % 16))
        = some c.toNat := by
      have hzero : hexDigit? '0' = some 0 := by decide
      simp only [hex4?, hzero, hexDigit?_hexMark (c.toNat / 16) (by omega),
        hexDigit?_hexMark (c.toNat % 16) (by omega), Option.pure_def, Option.bind_eq_bind,
        Option.bind_some]
      congr 1
      omega
    have hhigh : isHighSurrogate c.toNat = false := by simp [isHighSurrogate]; omega
    have hlowhalf : isLowSurrogate c.toNat = false := by simp [isLowSurrogate]; omega
    simp [textChar?, hvalue, hhigh, hlowhalf, Char.ofNat_toNat]
  · rename_i hhigh
    have hslash : c ≠ '\\' := by assumption
    simp [textChar?, hslash, hhigh]

theorem escape_eq_cons (c : Char) : ∃ d cs, escape c = d :: cs ∧ d ≠ '"' := by
  unfold escape
  split
  iterate 7 exact ⟨_, _, rfl, by decide⟩
  split
  · exact ⟨_, _, rfl, by decide⟩
  · exact ⟨_, _, rfl, by assumption⟩

/-- The inside of a written text is read back up to the closing quote. -/
theorem textBody?_escape (cs rest : List Char) :
    textBody? (cs.flatMap escape ++ '"' :: rest) = some (some cs, rest) := by
  induction cs with
  | nil => rw [List.flatMap_nil, List.nil_append, textBody?]
  | cons c cs ih =>
    obtain ⟨d, ds, hd, hne⟩ := escape_eq_cons c
    have hchar := textChar?_escape c (cs.flatMap escape ++ '"' :: rest)
    rw [List.flatMap_cons, List.append_assoc]
    rw [hd, List.cons_append] at hchar ⊢
    rw [textBody?.eq_2 _ (by simpa using hne)]
    split
    · rename_i h; rw [hchar] at h; cases h
    · rename_i h
      rw [hchar] at h
      cases h
      rw [ih]
      rfl

/-! ## Leaves -/

/-- The text is that of a value with nothing in front of it, and the reader reads the value from
it, whatever follows. -/
structure Reads {α : Type} (reader : Reader α) (text : List Char) (a : α) : Prop where
  opens : ∀ c ∈ text.head?, isSpace c = false ∧ c ≠ ']' ∧ c ≠ '}'
  pos : 0 < text.length
  reads : ∀ rest, Ends rest → reader (text ++ rest) = some (a, rest)

/-- A numeral is read as a number. -/
theorem value?_numeral {c : Char} {cs : List Char} (h : isNumeral c = true) (depth room : Nat) :
    value? depth room (c :: cs) = number? (c :: cs) := by
  have hne : c ≠ '"' ∧ c ≠ 't' ∧ c ≠ 'f' ∧ c ≠ 'n' ∧ c ≠ '[' ∧ c ≠ '\x7b' := by
    refine ⟨?_, ?_, ?_, ?_, ?_, ?_⟩ <;> (rintro rfl; revert h; decide)
  rw [value?.eq_def]
  simp [hne]

theorem reads_numeral {text : List Char} {d : Data} (h : number? text = some (d, []))
    (hall : ∀ c ∈ text, isNumeral c = true) (depth room : Nat) :
    Reads (value? depth room) text d := by
  cases text with
  | nil => cases h
  | cons c cs =>
    have hc := hall c List.mem_cons_self
    refine ⟨?_, by simp, fun rest hrest => ?_⟩
    · rintro _ ⟨⟩
      refine ⟨not_isSpace_of_isNumeral hc, ?_, ?_⟩ <;> (rintro rfl; revert hc; decide)
    · have := number?_append h hrest
      rw [List.cons_append] at this ⊢
      rw [value?_numeral hc, this, List.nil_append]

theorem reads_whole {n : Nat} (h : n < UInt64.size) (level : Option Nat) (depth room : Nat) :
    Reads (value? depth room) (write level (.whole n)) (.whole n) := by
  have htext : write level (.whole n) = Nat.toDigits 10 n := by
    simp only [write]
    rw [show toString (n : Int) = toString n from rfl, Nat.toString_eq_ofList_toDigits,
      String.toList_ofList]
  rw [htext]
  exact reads_numeral (number?_toDigits h) (fun c hc => isNumeral_of_mem_toDigits hc) depth room

/-- The shortest numeral of a double reads back as that double. -/
def ReadsBack (x : Double) : Prop := read? (compact (.double x)) = some (.double x)

/-- The double that a whole document is. -/
def toDouble? (s : String) : Option Double :=
  match read? s with
  | some (.double x) => some x
  | _ => none

theorem readsBack_iff (x : Double) : ReadsBack x ↔ toDouble? (compact (.double x)) = some x := by
  unfold ReadsBack toDouble?
  cases read? (compact (.double x)) with
  | none => simp
  | some d => cases d <;> simp

instance (x : Double) : Decidable (ReadsBack x) := decidable_of_iff _ (readsBack_iff x).symm

theorem reads_double {x : Double} (h : ReadsBack x) (level : Option Nat) (depth room : Nat) :
    Reads (value? depth room) (write level (.double x)) (.double x) := by
  have hall : ∀ c ∈ write level (.double x), isNumeral c = true := by
    simpa only [write] using List.all_eq_true.1 (all_isNumeral_write doubleLayout x.shortest)
  have htext : (compact (.double x)).toList = write level (.double x) := by
    simp [compact, write]
  unfold ReadsBack read? readWithin? at h
  rw [htext] at h
  generalize write level (.double x) = text at h hall
  cases text with
  | nil => simp [skipSpace, value?.eq_def, number?_eq, splitMinus] at h
  | cons c cs =>
    have hc := hall c List.mem_cons_self
    rw [skipSpace, List.dropWhile_cons, not_isSpace_of_isNumeral hc, if_neg Bool.false_ne_true,
      value?_numeral hc] at h
    refine reads_numeral ?_ hall depth room
    split at h
    · rename_i d tail hread
      split at h
      · rename_i hspace
        cases h
        cases tail with
        | nil => exact hread
        | cons t ts =>
          -- A numeral leaves no blanks, as it has none.
          have ht := hall t ((number?_suffix hread).mem List.mem_cons_self)
          simp [skipSpace, not_isSpace_of_isNumeral ht] at hspace
      · cases h
    · cases h

theorem reads_text (s : String) (level : Option Nat) (depth room : Nat) :
    Reads (value? depth room) (write level (.text s)) (.text s) := by
  refine ⟨?_, by simp [write, quote], fun rest _ => ?_⟩
  · rintro c ⟨⟩
    decide
  · simp only [write, quote, List.cons_append, List.append_assoc, List.nil_append]
    rw [value?, textBody?_escape]
    simp

theorem reads_null (level : Option Nat) (depth room : Nat) :
    Reads (value? depth room) (write level .null) .null := by
  refine ⟨?_, by simp [write], fun rest _ => ?_⟩
  · rintro c ⟨⟩
    decide
  · show value? depth room ('n' :: 'u' :: 'l' :: 'l' :: rest) = _
    rw [value?]

theorem reads_bool (b : Bool) (level : Option Nat) (depth room : Nat) :
    Reads (value? depth room) (write level (.bool b)) (.bool b) := by
  cases b
  · refine ⟨?_, by simp [write], fun rest _ => ?_⟩
    · rintro c ⟨⟩
      decide
    · show value? depth room ('f' :: 'a' :: 'l' :: 's' :: 'e' :: rest) = _
      rw [value?]
  · refine ⟨?_, by simp [write], fun rest _ => ?_⟩
    · rintro c ⟨⟩
      decide
    · show value? depth room ('t' :: 'r' :: 'u' :: 'e' :: rest) = _
      rw [value?]

/-! ## Lists and records -/

theorem skipSpace_append {gap cs : List Char} (h : gap.all isSpace = true) :
    skipSpace (gap ++ cs) = skipSpace cs :=
  List.dropWhile_append_of_pos fun c hc => List.all_eq_true.1 h c hc

theorem Reads.skipSpace {α : Type} {reader : Reader α} {text : List Char} {a : α}
    (h : Reads reader text a) (rest : List Char) :
    Json.skipSpace (text ++ rest) = text ++ rest := by
  cases text with
  | nil => exact absurd h.pos (Nat.lt_irrefl 0)
  | cons c cs => simp [Json.skipSpace, (h.opens c rfl).1]

/-- The members behind each other, a comma between any two, blanks before each and after the last,
and the closing mark. -/
def membersText (gap last : List Char) (close : Char) (texts : List (List Char)) : List Char :=
  [','].intercalate (texts.map (gap ++ ·)) ++ last ++ [close]

theorem membersText_singleton (gap last : List Char) (close : Char) (text : List Char) :
    membersText gap last close [text] = gap ++ text ++ last ++ [close] := by
  simp [membersText]

theorem membersText_cons (gap last : List Char) (close : Char) (text next : List Char)
    (texts : List (List Char)) :
    membersText gap last close (text :: next :: texts)
      = gap ++ text ++ ',' :: membersText gap last close (next :: texts) := by
  simp [membersText, List.intercalate]

section Members

variable {α : Type} {member : Reader α} {close : Char} {gap last : List Char}
  {texts : List (List Char)} {as : List α}

/-- Members are read back from their texts, up to and with the closing mark. -/
theorem members?_text (hgap : gap.all isSpace = true) (hlast : last.all isSpace = true)
    (hclose : close = ']' ∨ close = '\x7d') (h : List.Forall₂ (Reads member) texts as)
    (hne : texts ≠ []) {n : Nat} (hn : texts.length ≤ n) (rest : List Char) :
    members? member close n (membersText gap last close texts ++ rest) = some (as, rest) := by
  induction h generalizing n with
  | nil => exact absurd rfl hne
  | @cons text a texts as hread hreads ih =>
    obtain ⟨n, rfl⟩ : ∃ m, n = m + 1 := ⟨n - 1, by simp at hn; omega⟩
    have hmark : isSpace close = false ∧ isNumeral close = false ∧ close ≠ ',' := by
      rcases hclose with rfl | rfl <;> decide
    cases hreads with
    | nil =>
      have hends : Ends (last ++ [close] ++ rest) := by
        cases last with
        | nil => exact ends_cons hmark.2.1
        | cons c cs =>
          exact ends_cons (isNumeral_of_isSpace (List.all_eq_true.1 hlast c List.mem_cons_self))
      rw [membersText_singleton, members?]
      simp only [List.append_assoc] at hends ⊢
      rw [skipSpace_append hgap, hread.skipSpace, hread.reads _ hends]
      simp only [skipSpace_append hlast, List.cons_append, List.nil_append]
      simp [skipSpace, hmark.1, hmark.2.2]
    | @cons next b texts as hnext hrest =>
      have hcomma : Ends (',' :: (membersText gap last close (next :: texts) ++ rest)) :=
        ends_cons (by decide)
      rw [membersText_cons, members?]
      simp only [List.append_assoc, List.cons_append] at hcomma ⊢
      rw [skipSpace_append hgap, hread.skipSpace, hread.reads _ hcomma]
      have hskip : ∀ cs, skipSpace (',' :: cs) = ',' :: cs := fun cs => rfl
      simp only [hskip]
      rw [ih (by simp) (by simp at hn ⊢; omega)]
      rfl

/-- The text of the members is at least as long as there are members. -/
theorem length_le_membersText (gap last : List Char) (close : Char) {texts : List (List Char)}
    (h : ∀ text ∈ texts, 0 < text.length) :
    texts.length ≤ (membersText gap last close texts).length := by
  induction texts with
  | nil => simp
  | cons text texts ih =>
    have hpos := h text List.mem_cons_self
    cases texts with
    | nil => rw [membersText_singleton]; simp; omega
    | cons next texts =>
      have := ih fun t ht => h t (List.mem_cons_of_mem _ ht)
      rw [membersText_cons]
      simp at this ⊢
      omega

theorem length_le_of_mem_membersText {text : List Char} (h : text ∈ texts) :
    text.length ≤ (membersText gap last close texts).length := by
  induction texts with
  | nil => cases h
  | cons first texts ih =>
    cases texts with
    | nil =>
      rw [List.mem_singleton.1 h, membersText_singleton]
      simp
      omega
    | cons next texts =>
      rw [membersText_cons]
      rcases List.mem_cons.1 h with rfl | h
      · simp
        omega
      · have := ih h
        simp at this ⊢
        omega

/-- Behind the first member there is room for the others. -/
theorem exists_membersText (gap last : List Char) (close : Char) (text : List Char)
    {texts : List (List Char)} (h : ∀ t ∈ texts, 0 < t.length) :
    ∃ tail, membersText gap last close (text :: texts) = gap ++ (text ++ tail)
      ∧ texts.length ≤ tail.length := by
  cases texts with
  | nil => exact ⟨last ++ [close], by simp [membersText_singleton], by simp⟩
  | cons next texts =>
    refine ⟨',' :: membersText gap last close (next :: texts), by simp [membersText_cons], ?_⟩
    have := length_le_membersText gap last close h
    simp at this ⊢
    omega

theorem enclosed?_text (hgap : gap.all isSpace = true) (hlast : last.all isSpace = true)
    (hclose : close = ']' ∨ close = '\x7d') (h : List.Forall₂ (Reads member) texts as)
    (hne : texts ≠ []) (rest : List Char) :
    enclosed? member close (membersText gap last close texts ++ rest) = some (as, rest) := by
  have hpos : ∀ t ∈ texts, 0 < t.length := by
    intro t ht
    obtain ⟨i, hi, rfl⟩ := List.mem_iff_getElem.1 ht
    exact (h.get hi (h.length_eq ▸ hi)).pos
  cases h with
  | nil => exact absurd rfl hne
  | @cons text a texts as hread hreads =>
    obtain ⟨tail, htail, hlength⟩ := exists_membersText gap last close text fun t ht =>
      hpos t (List.mem_cons_of_mem _ ht)
    have hskip : skipSpace (membersText gap last close (text :: texts) ++ rest)
        = text ++ (tail ++ rest) := by
      rw [htail, List.append_assoc, skipSpace_append hgap, List.append_assoc, hread.skipSpace]
    have hmembers (n : Nat) (hn : (text :: texts).length ≤ n) :=
      members?_text hgap hlast hclose (.cons hread hreads) hne hn rest
    cases text with
    | nil => exact absurd hread.pos (Nat.lt_irrefl 0)
    | cons c cs =>
      have hc : (c == close) = false := by
        obtain ⟨-, hlist, hrecord⟩ := hread.opens c rfl
        rcases hclose with rfl | rfl <;> simpa
      rw [enclosed?, hskip, List.cons_append]
      simp only [hc, Bool.false_eq_true, if_false]
      exact hmembers _ (by simp; omega)

end Members

theorem enclosed?_nil {α : Type} (member : Reader α) {close : Char}
    (hclose : close = ']' ∨ close = '\x7d') (rest : List Char) :
    enclosed? member close (close :: rest) = some ([], rest) := by
  rcases hclose with rfl | rfl <;> simp [enclosed?, skipSpace, isSpace]

/-- The blanks before each member and after the last one, in the layout of a level. -/
theorem enclose_eq (opening closing : Char) (level : Option Nat) {texts : List (List Char)}
    (h : texts ≠ []) :
    ∃ gap last, gap.all isSpace = true ∧ last.all isSpace = true ∧
      enclose opening closing level texts = opening :: membersText gap last closing texts := by
  have hbreak (n : Nat) : (lineBreak n).all isSpace = true := by
    simp [lineBreak, isSpace]
  cases level with
  | none => exact ⟨[], [], rfl, rfl, by cases texts <;> simp_all [enclose, membersText]⟩
  | some n =>
    exact ⟨lineBreak (n + 1), lineBreak n, hbreak _, hbreak _, by
      cases texts <;> simp_all [enclose, membersText]⟩

theorem length_lt_enclose (opening closing : Char) (level : Option Nat)
    {texts : List (List Char)} {text : List Char} (h : text ∈ texts) :
    text.length < (enclose opening closing level texts).length := by
  obtain ⟨gap, last, -, -, htext⟩ := enclose_eq opening closing level (List.ne_nil_of_mem h)
  rw [htext, List.length_cons]
  exact Nat.lt_succ_of_le (length_le_of_mem_membersText h)

theorem length_enclose_pos (opening closing : Char) (level : Option Nat)
    (texts : List (List Char)) : 0 < (enclose opening closing level texts).length := by
  unfold enclose
  split <;> simp

/-- Members between two marks are read back. -/
theorem enclosed?_enclose {α : Type} {member : Reader α} (opening : Char) {closing : Char}
    (level : Option Nat) {texts : List (List Char)} {as : List α}
    (hclose : closing = ']' ∨ closing = '\x7d') (h : List.Forall₂ (Reads member) texts as) :
    ∃ inner, enclose opening closing level texts = opening :: inner ∧
      ∀ rest, enclosed? member closing (inner ++ rest) = some (as, rest) := by
  cases h with
  | nil =>
    exact ⟨[closing], by simp [enclose], fun rest => enclosed?_nil member hclose rest⟩
  | cons hread hreads =>
    obtain ⟨gap, last, hgap, hlast, htext⟩ :=
      enclose_eq opening closing level (List.cons_ne_nil _ _)
    exact ⟨_, htext, fun rest =>
      enclosed?_text hgap hlast hclose (.cons hread hreads) (List.cons_ne_nil _ _) rest⟩

/-! ## Trees -/

/-- A tree that can be written: nothing in it is unusable, whole numbers are natural numbers of 64
bits, and the numeral of every double reads back. -/
inductive Writable : Data → Prop
  | null : Writable .null
  | bool (b : Bool) : Writable (.bool b)
  | whole {n : Nat} (h : n < UInt64.size) : Writable (.whole n)
  | double {x : Double} (h : ReadsBack x) : Writable (.double x)
  | text (s : String) : Writable (.text s)
  | list {items : List Data} (h : ∀ d ∈ items, Writable d) : Writable (.list items)
  | record {fields : List (String × Data)} (h : ∀ f ∈ fields, Writable f.2) :
    Writable (.record fields)

namespace Writable

attribute [simp] null text

@[simp] theorem double_iff {x : Double} : Writable (.double x) ↔ ReadsBack x :=
  ⟨fun h => by cases h; assumption, .double⟩

@[simp] theorem whole_iff {n : Nat} : Writable (.whole n) ↔ n < UInt64.size := by
  constructor
  · intro h
    generalize hn : (n : Int) = i at h
    cases h with
    | whole h => rwa [Int.ofNat_inj.1 hn]
  · exact .whole

@[simp] theorem list_iff {items : List Data} :
    Writable (.list items) ↔ ∀ d ∈ items, Writable d :=
  ⟨fun h => by cases h; assumption, .list⟩

@[simp] theorem record_iff {fields : List (String × Data)} :
    Writable (.record fields) ↔ ∀ f ∈ fields, Writable f.2 :=
  ⟨fun h => by cases h; assumption, .record⟩

end Writable

theorem writeList_eq_map (level : Option Nat) (items : List Data) :
    writeList level items = items.map (write level) := by
  induction items with
  | nil => rfl
  | cons d rest ih => simp [writeList, ih]

/-- The written form of a field. -/
def writeField (level : Option Nat) (f : String × Data) : List Char :=
  quote f.1 ++ ':' :: (if level.isSome then [' '] else []) ++ write level f.2

theorem writeFields_eq_map (level : Option Nat) (fields : List (String × Data)) :
    writeFields level fields = fields.map (writeField level) := by
  induction fields with
  | nil => rfl
  | cons f rest ih => simp [writeFields, writeField, ih]

/-- A field is read back if its value is. -/
theorem reads_field {value : Reader Data} {level : Option Nat} {f : String × Data} {d : Data}
    (h : Reads value (write level f.2) d) :
    Reads (field? value) (writeField level f) (f.1, d) := by
  refine ⟨?_, by simp [writeField, quote], fun rest hrest => ?_⟩
  · rintro c ⟨⟩
    decide
  · have hgap : (if level.isSome then [' '] else []).all isSpace = true := by
      split <;> rfl
    simp only [writeField, quote, List.cons_append, List.append_assoc, List.nil_append]
    rw [field?, textBody?_escape]
    have hskip : ∀ cs, skipSpace (':' :: cs) = ':' :: cs := fun cs => rfl
    simp only [hskip]
    rw [skipSpace_append hgap, h.skipSpace, h.reads rest hrest]
    simp

/-- A written tree is read back down to the depth of the reader. -/
theorem reads_write {d : Data} (h : Writable d) (level : Option Nat) (depth : Nat) {room : Nat}
    (hroom : d.nesting ≤ room) :
    Reads (value? depth room) (write level d) (d.clip depth) := by
  induction h generalizing level depth room with
  | null => simpa [Data.clip] using reads_null level depth room
  | bool b => simpa [Data.clip] using reads_bool b level depth room
  | whole h => simpa [Data.clip] using reads_whole h level depth room
  | double h => simpa [Data.clip] using reads_double h level depth room
  | text s => simpa [Data.clip] using reads_text s level depth room
  | @list items h ih =>
    obtain ⟨room, rfl⟩ : ∃ r, room = r + 1 := ⟨room - 1, by simp [Data.nesting] at hroom; omega⟩
    have hitems := Data.nestingIn_le_iff.1 (Nat.le_of_succ_le_succ hroom)
    have hmembers : List.Forall₂ (Reads (value? (depth - 1) room))
        (items.map (write (level.map (· + 1)))) (items.map (·.clip (depth - 1))) := by
      rw [List.forall₂_map_left_iff, List.forall₂_map_right_iff]
      exact List.forall₂_same.2 fun d hd => ih d hd _ _ (hitems d hd)
    obtain ⟨inner, htext, hread⟩ := enclosed?_enclose '[' level (.inl rfl) hmembers
    rw [write, writeList_eq_map, htext]
    refine ⟨?_, by simp, fun rest _ => ?_⟩
    · rintro c ⟨⟩
      decide
    · rw [List.cons_append, value?, hread rest]
      cases depth <;> simp [Data.clip, Data.clipIn_eq_map]
  | @record fields h ih =>
    obtain ⟨room, rfl⟩ : ∃ r, room = r + 1 := ⟨room - 1, by simp [Data.nesting] at hroom; omega⟩
    have hfields := Data.nestingOf_le_iff.1 (Nat.le_of_succ_le_succ hroom)
    have hmembers : List.Forall₂ (Reads (field? (value? (depth - 1) room)))
        (fields.map (writeField (level.map (· + 1))))
        (fields.map fun f => (f.1, f.2.clip (depth - 1))) := by
      rw [List.forall₂_map_left_iff, List.forall₂_map_right_iff]
      exact List.forall₂_same.2 fun f hf => reads_field (ih f hf _ _ (hfields f hf))
    obtain ⟨inner, htext, hread⟩ := enclosed?_enclose '\x7b' level (.inr rfl) hmembers
    rw [write, writeFields_eq_map, htext]
    refine ⟨?_, by simp, fun rest _ => ?_⟩
    · rintro c ⟨⟩
      decide
    · rw [List.cons_append, value?, hread rest]
      cases depth <;> simp [Data.clip, Data.clipOf_eq_map]

/-- A tree nests no deeper than its text is long. -/
theorem nesting_le_length {d : Data} (h : Writable d) (level : Option Nat) :
    d.nesting ≤ (write level d).length := by
  induction h generalizing level with
  | @list items h ih =>
    have hpos := length_enclose_pos '[' ']' level (items.map (write (level.map (· + 1))))
    rw [write, writeList_eq_map, Data.nesting, Nat.add_one_le_iff, Nat.lt_iff_le_pred hpos,
      Data.nestingIn_le_iff]
    intro d hd
    have hlt := length_lt_enclose '[' ']' level
      (List.mem_map_of_mem (f := write (level.map (· + 1))) hd)
    exact (ih d hd _).trans (Nat.le_pred_of_lt hlt)
  | @record fields h ih =>
    have hpos := length_enclose_pos '\x7b' '\x7d' level
      (fields.map (writeField (level.map (· + 1))))
    rw [write, writeFields_eq_map, Data.nesting, Nat.add_one_le_iff, Nat.lt_iff_le_pred hpos,
      Data.nestingOf_le_iff]
    intro f hf
    have hlt := length_lt_enclose '\x7b' '\x7d' level
      (List.mem_map_of_mem (f := writeField (level.map (· + 1))) hf)
    have hfield : (write (level.map (· + 1)) f.2).length
        ≤ (writeField (level.map (· + 1)) f).length := by
      simp [writeField]
      omega
    exact ((ih f hf _).trans hfield).trans (Nat.le_pred_of_lt hlt)
  | _ => exact Nat.zero_le _

/-- A whole document that is written is read back down to the depth of the reader. -/
theorem readWithin?_write {d : Data} (h : Writable d) (level : Option Nat) (depth : Nat) :
    readWithin? depth (String.ofList (write level d)) = some (d.clip depth) := by
  have hread := reads_write h level depth (nesting_le_length h level)
  have hskip := hread.skipSpace []
  have hvalue := hread.reads [] ends_nil
  rw [List.append_nil] at hskip hvalue
  rw [readWithin?, String.toList_ofList, hskip, String.length_ofList, hvalue]
  rfl

end Json

end QueryCanvas
