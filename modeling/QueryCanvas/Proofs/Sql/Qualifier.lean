import QueryCanvas.Proofs.Diagnosis.Columns
import QueryCanvas.Proofs.Sql.Scanning
import QueryCanvas.Proofs.Text.Words

/-!
# Columns whose table is found again

Which table a written column belongs to is told from what stands before its last point, without the
quotes at both ends of it.  For a column that is written with the name of its table this gives back
the name exactly if the column has no point in it and writing puts quotes at the ends of the name of
the table only.
-/

set_option autoImplicit false

namespace QueryCanvas.Sql

variable {a a' r r' cs : List Char} {c : Char}

/-! ## Texts alike but for the case of letters -/

/-- The texts differ at most in the case of letters. -/
def Alike (a b : List Char) : Prop := a.map Char.toLower = b.map Char.toLower

theorem sameName_iff_alike {s s' : String} : Text.sameName s s' ↔ Alike s.toList s'.toList := by
  rw [Text.sameName, beq_iff_eq, Alike, ← String.toList_inj]
  show (String.map _ _).toList = (String.map _ _).toList ↔ _
  rw [String.toList_map, String.toList_map]

theorem Alike.refl (a : List Char) : Alike a a := rfl

theorem Alike.length (h : Alike a r) : a.length = r.length := by
  simpa using congrArg List.length h

theorem alike_reverse : Alike a.reverse r.reverse ↔ Alike a r := by
  rw [Alike, List.map_reverse, List.map_reverse, List.reverse_inj]
  rfl

theorem toLower_eq_iff (hlow : c.toNat < 97) (hlower : c.toLower = c) (x : Char) :
    x.toLower = c ↔ x = c :=
  ⟨Text.eq_of_toLower hlow, fun h => by rw [h, hlower]⟩

/-- A character that is no letter stands at the same places. -/
theorem Alike.head? (h : Alike a r) (hlow : c.toNat < 97) (hlower : c.toLower = c) :
    a.head? = some c ↔ r.head? = some c := by
  have hhead := congrArg List.head? h
  rw [List.head?_map, List.head?_map] at hhead
  have hmap : ∀ l : List Char, l.head?.map Char.toLower = some c ↔ l.head? = some c := by
    intro l
    simp [Option.map_eq_some_iff, toLower_eq_iff hlow hlower]
  rw [← hmap a, ← hmap r, hhead]

theorem Alike.count (h : Alike a r) (hlow : c.toNat < 97) (hlower : c.toLower = c) :
    a.count c = r.count c := by
  have hcount : ∀ l : List Char, (l.map Char.toLower).count c = l.count c := by
    intro l
    rw [List.count_eq_countP, List.count_eq_countP, List.countP_map]
    refine List.countP_congr fun x _ => ?_
    simp [toLower_eq_iff hlow hlower]
  rw [← hcount a, ← hcount r, h]

/-- Texts alike are so on both sides of the first point. -/
theorem alike_point (ha : '.' ∉ a) (ha' : '.' ∉ a') :
    Alike (a ++ '.' :: r) (a' ++ '.' :: r') ↔ Alike a a' ∧ Alike r r' := by
  have hfirst : ∀ {a r : List Char}, '.' ∉ a →
      ((a ++ '.' :: r).map Char.toLower).takeWhile (· ≠ '.') = a.map Char.toLower := by
    intro a r ha
    rw [List.map_append, List.takeWhile_append_of_pos, List.map_cons,
      List.takeWhile_cons_of_neg (by decide), List.append_nil]
    intro x hx
    obtain ⟨y, hy, rfl⟩ := List.mem_map.1 hx
    refine decide_eq_true fun hpoint => ha ?_
    rwa [(toLower_eq_iff (by decide) (by decide) y).1 hpoint] at hy
  constructor
  · intro h
    have hleft : Alike a a' := by
      have htake := congrArg (List.takeWhile (· ≠ '.')) h
      rwa [hfirst ha, hfirst ha'] at htake
    refine ⟨hleft, ?_⟩
    rw [Alike, List.map_append, List.map_append, hleft] at h
    exact (List.cons.inj (List.append_cancel_left h)).2
  · rintro ⟨hleft, hright⟩
    rw [Alike, List.map_append, List.map_append, hleft, List.map_cons, List.map_cons, hright]

/-! ## Quotes at the ends -/

/-- Whether a character is the quote of names. -/
abbrev isMarked (c : Char) : Bool := c == '"'

theorem stripEndWhere_append_cons {p : Char → Bool} (hc : p c = false) (a r : List Char) :
    Text.stripEndWhere p (a ++ c :: r) = a ++ c :: Text.stripEndWhere p r := by
  rw [Text.stripEndWhere, List.reverse_append, List.reverse_cons, List.append_assoc,
    List.singleton_append, (Parameter.takeWhile_append_cons hc _ _).2, List.reverse_append,
    List.reverse_cons, List.reverse_reverse, List.append_assoc, List.singleton_append]
  rfl

theorem head?_dropWhile_ne {p : Char → Bool} (hc : p c) (cs : List Char) :
    (cs.dropWhile p).head? ≠ some c := by
  intro h
  have := List.head?_dropWhile_not p cs
  rw [h] at this
  simp [hc] at this

theorem reverse_doubled (mark : Char) (cs : List Char) :
    (doubled mark cs).reverse = doubled mark cs.reverse := by
  induction cs with
  | nil => rfl
  | cons c cs ih =>
    rw [List.reverse_cons, doubled, List.flatMap_cons, ← doubled, List.reverse_append, ih, doubled,
      doubled, List.flatMap_append, List.flatMap_singleton]
    split <;> rfl

theorem length_doubled (mark : Char) (cs : List Char) :
    (doubled mark cs).length = cs.length + cs.count mark := by
  induction cs with
  | nil => rfl
  | cons c cs ih =>
    rw [doubled, List.flatMap_cons, ← doubled, List.length_append, ih, List.count_cons,
      List.length_cons]
    by_cases hc : c = mark
    · simp [hc]
      omega
    · simp [hc]
      omega

/-- What does not begin with a mark does not do so with the marks in it doubled. -/
theorem head?_doubled {mark : Char} (h : cs.head? ≠ some mark) :
    (doubled mark cs).head? = cs.head? := by
  cases cs with
  | nil => rfl
  | cons c cs =>
    rw [doubled, List.flatMap_cons, if_neg fun hc => h (by rw [hc]; rfl)]
    rfl

/-- If quotes were put around a text, taking off those in front does not give the text back. -/
theorem alike_dropWhile_quoted :
    Alike (('"' :: doubled '"' cs ++ ['"']).dropWhile isMarked) cs ↔ cs = [] := by
  constructor
  · intro h
    by_contra hne
    have hhead : cs.head? ≠ some '"' := fun hquote =>
      head?_dropWhile_ne (p := isMarked) rfl _
        ((h.head? (by decide) (by decide)).2 hquote)
    have hkept : (doubled '"' cs ++ ['"']).dropWhile isMarked = doubled '"' cs ++ ['"'] := by
      refine dropWhile_of_head fun c hc => ?_
      have hdoubled := head?_doubled hhead
      obtain ⟨x, hx⟩ := Option.isSome_iff_exists.1 (List.isSome_head?.2 hne)
      rw [hx] at hdoubled
      rw [List.head?_append, hdoubled, Option.some_or] at hc
      cases hc
      exact beq_eq_false_iff_ne.2 fun hquote => hhead (hquote ▸ hx)
    have hlength := h.length
    rw [List.cons_append, List.dropWhile_cons_of_pos rfl, hkept, List.length_append,
      length_doubled, List.length_singleton] at hlength
    omega
  · rintro rfl
    rfl

theorem alike_stripEnd_quoted :
    Alike (Text.stripEndWhere isMarked ('"' :: doubled '"' cs ++ ['"'])) cs ↔ cs = [] := by
  have hreverse : ('"' :: doubled '"' cs ++ ['"']).reverse
      = '"' :: doubled '"' cs.reverse ++ ['"'] := by
    rw [List.reverse_append, List.reverse_singleton, List.reverse_cons, reverse_doubled]
    rfl
  rw [Text.stripEndWhere, hreverse, ← alike_reverse, List.reverse_reverse, alike_dropWhile_quoted,
    List.reverse_eq_nil_iff]

/-- What is left of a text without quotes at its ends has none there. -/
theorem ends_stripWhere {p : Char → Bool} (hc : p c) (cs : List Char) :
    (Text.stripWhere p cs).head? ≠ some c ∧ (Text.stripWhere p cs).getLast? ≠ some c := by
  constructor
  · intro hhead
    have hprefix : Text.stripWhere p cs <+: cs.dropWhile p := by
      rw [← List.reverse_suffix, Text.stripWhere, List.reverse_reverse]
      exact List.dropWhile_suffix p
    obtain ⟨tail, htail⟩ := hprefix
    refine head?_dropWhile_ne hc cs ?_
    rw [← htail, List.head?_append, hhead]
    rfl
  · rw [Text.stripWhere, List.getLast?_reverse]
    exact head?_dropWhile_ne hc _

theorem stripWhere_enclosed (hfirst : cs.head? ≠ some '"') (hlast : cs.getLast? ≠ some '"') :
    Text.stripWhere isMarked ('"' :: cs ++ ['"']) = cs := by
  have hnot : ∀ {x : Char} {l : Option Char}, l ≠ some '"' → x ∈ l → isMarked x = false := by
    rintro x l hl hx
    exact beq_eq_false_iff_ne.2 fun hquote => hl (hquote ▸ hx)
  by_cases hnil : cs = []
  · rw [hnil]
    rfl
  · obtain ⟨x, hx⟩ := Option.isSome_iff_exists.1 (List.isSome_head?.2 hnil)
    have hfront : ('"' :: cs ++ ['"']).dropWhile isMarked = cs ++ ['"'] := by
      rw [List.cons_append, List.dropWhile_cons_of_pos rfl]
      refine dropWhile_of_head fun y hy => hnot hfirst ?_
      rwa [List.head?_append, hx, Option.some_or, ← hx] at hy
    have hback : ('"' :: cs.reverse).dropWhile isMarked = cs.reverse := by
      rw [List.dropWhile_cons_of_pos rfl]
      exact dropWhile_of_head fun y hy => hnot hlast (by rwa [List.head?_reverse] at hy)
    rw [Text.stripWhere, hfront, List.reverse_append, List.reverse_singleton,
      List.singleton_append, hback, List.reverse_reverse]

/-- Taking off the quotes at both ends gives the text back exactly if there is no quote in it. -/
theorem alike_strip_quoted :
    Alike (Text.stripWhere isMarked ('"' :: doubled '"' cs ++ ['"'])) cs ↔ '"' ∉ cs := by
  constructor
  · intro h hmem
    obtain ⟨hfirst, hend⟩ := ends_stripWhere (p := isMarked) (c := '"') rfl
      ('"' :: doubled '"' cs ++ ['"'])
    have hhead : cs.head? ≠ some '"' := fun hquote =>
      hfirst ((h.head? (by decide) (by decide)).2 hquote)
    have hlast : cs.reverse.head? ≠ some '"' := fun hquote => by
      rw [← List.head?_reverse] at hend
      exact hend (((alike_reverse.2 h).head? (by decide) (by decide)).2 hquote)
    have hlast' : (doubled '"' cs).getLast? ≠ some '"' := by
      rw [← List.head?_reverse, reverse_doubled, head?_doubled hlast]
      exact hlast
    have hlength := h.length
    rw [stripWhere_enclosed (by rwa [head?_doubled hhead]) hlast', length_doubled] at hlength
    have := List.count_pos_iff.2 hmem
    omega
  · intro h
    rw [doubled_eq_self h, stripWhere_quotes h]
    exact .refl cs

/-! ## Parts of a name -/

theorem length_quoteName_eq_iff {name : String} :
    (quoteName name).toList.length = name.toList.length ↔ isPlainName name := by
  unfold quoteName
  split
  · rename_i hplain
    simp [hplain]
  · rename_i hplain
    rw [toList_quoted, List.length_append, List.length_cons, length_doubled]
    simp [hplain]
    omega

theorem point_not_mem_quoteName {name : String} (h : '.' ∉ name.toList) :
    '.' ∉ (quoteName name).toList := not_mem_quoteName h (by decide)

theorem not_mem_of_isPlainName {name : String} (h : isPlainName name)
    (hc : Parameter.isNamePart c = false) : c ∉ name.toList := by
  intro hmem
  simp only [isPlainName, Bool.and_eq_true, List.all_eq_true] at h
  rw [h.2 c hmem] at hc
  cases hc

/-- A part of a name that is written as it is, or as nothing but quotes. -/
def isBare (part : String) : Bool := part.isEmpty || isPlainName part

theorem alike_quoteName {name : String} :
    Alike (quoteName name).toList name.toList ↔ isPlainName name := by
  rw [← length_quoteName_eq_iff]
  refine ⟨Alike.length, fun h => ?_⟩
  rw [quoteName, if_pos (length_quoteName_eq_iff.1 h)]
  exact .refl _

theorem isBare_iff {name : String} : isBare name ↔ name.toList = [] ∨ isPlainName name := by
  rw [isBare, Bool.or_eq_true, String.isEmpty_iff, ← String.toList_eq_nil_iff]

theorem alike_dropWhile_quoteName {name : String} :
    Alike ((quoteName name).toList.dropWhile isMarked) name.toList ↔ isBare name := by
  rw [isBare_iff, quoteName]
  split
  · rename_i hplain
    rw [dropWhile_of_head]
    · simp [hplain, Alike.refl]
    · intro c hc
      exact beq_eq_false_iff_ne.2 fun hquote => not_mem_of_isPlainName hplain (c := '"') (by decide)
        (hquote ▸ List.mem_of_mem_head? hc)
  · rename_i hplain
    rw [toList_quoted, alike_dropWhile_quoted]
    simp [hplain]

theorem alike_stripEnd_quoteName {name : String} :
    Alike (Text.stripEndWhere isMarked (quoteName name).toList) name.toList ↔ isBare name := by
  rw [isBare_iff, quoteName]
  split
  · rename_i hplain
    rw [Text.stripEndWhere, dropWhile_of_head, List.reverse_reverse]
    · simp [hplain, Alike.refl]
    · intro c hc
      exact beq_eq_false_iff_ne.2 fun hquote => not_mem_of_isPlainName hplain (c := '"') (by decide)
        (hquote ▸ List.mem_reverse.1 (List.mem_of_mem_head? hc))
  · rename_i hplain
    rw [toList_quoted, alike_stripEnd_quoted]
    simp [hplain]

/-! ## Names with points -/

/-- The characters of a name with these parts. -/
def joinPoints : List String → List Char
  | [] => []
  | [name] => name.toList
  | name :: rest => name.toList ++ '.' :: joinPoints rest

theorem joinPoints_cons (name : String) {rest : List String} (h : rest ≠ []) :
    joinPoints (name :: rest) = name.toList ++ '.' :: joinPoints rest := by
  cases rest with
  | nil => exact absurd rfl h
  | cons next rest => rfl

theorem pathChars_cons (name : String) {rest : List String} (h : rest ≠ []) :
    pathChars (name :: rest) = (quoteName name).toList ++ '.' :: pathChars rest := by
  cases rest with
  | nil => exact absurd rfl h
  | cons next rest => rfl

theorem joinPoints_splitAt (name : String) : joinPoints (Text.splitAt '.' name) = name.toList := by
  have hpieces : ∀ pieces : List (List Char),
      joinPoints (pieces.map String.ofList) = ['.'].intercalate pieces := by
    intro pieces
    induction pieces with
    | nil => rfl
    | cons piece rest ih =>
      by_cases hrest : rest = []
      · subst hrest
        simp [joinPoints]
      · rw [List.map_cons, joinPoints_cons _ (by simpa using hrest), ih,
          List.intercalate_cons_of_ne_nil hrest, String.toList_ofList]
        simp
  rw [Text.splitAt, hpieces, intercalate_cutWhere]

theorem point_not_mem_splitAt {name part : String} (h : part ∈ Text.splitAt '.' name) :
    '.' ∉ part.toList := by
  obtain ⟨piece, hpiece, rfl⟩ := List.mem_map.1 h
  rw [String.toList_ofList]
  intro hmem
  simpa using Text.not_of_mem_cutWhere hpiece hmem

/-- Whether all parts are written as they are, of which the last one may be empty. -/
def areBare : List String → Bool
  | [] => true
  | [name] => isBare name
  | name :: rest => isPlainName name && areBare rest

/-- Taking the quotes off the end gives the parts behind a point back exactly if all of them are
written as they are, of which the last one may be empty. -/
theorem alike_stripEnd_path {parts : List String} (hpoint : ∀ part ∈ parts, '.' ∉ part.toList) :
    Alike (Text.stripEndWhere isMarked (pathChars parts)) (joinPoints parts) ↔ areBare parts := by
  induction parts with
  | nil => exact iff_of_true (.refl []) rfl
  | cons name rest ih =>
    obtain ⟨hname, hrest⟩ := List.forall_mem_cons.1 hpoint
    cases rest with
    | nil => exact alike_stripEnd_quoteName
    | cons next rest =>
      rw [pathChars_cons name (by simp), joinPoints_cons name (by simp),
        stripEndWhere_append_cons (by decide), alike_point (point_not_mem_quoteName hname) hname,
        alike_quoteName, ih hrest]
      show _ ↔ (isPlainName name && areBare (next :: rest)) = true
      rw [Bool.and_eq_true]

/-- Whether the quotes in the written name of a table stand at both ends of it only: a name without
points has no quotes in it, and of other names all parts are written as they are, of which the first
and the last one may be empty. -/
def isEdgeQuoted (table : String) : Bool :=
  match Text.splitAt '.' table with
  | [] => true
  | [name] => !name.toList.contains '"'
  | first :: rest => isBare first && areBare rest

example : isEdgeQuoted "order lines" ∧ isEdgeQuoted "public.orders" ∧
    ¬isEdgeQuoted "public.order lines" := by decide +kernel

/-- Taking the quotes off both ends of the written name of a table gives back the name exactly if
there are no other quotes. -/
theorem alike_strip_path (table : String) :
    Alike (Text.stripWhere isMarked (pathChars (Text.splitAt '.' table))) table.toList ↔
      isEdgeQuoted table := by
  have hpoint : ∀ part ∈ Text.splitAt '.' table, '.' ∉ part.toList := fun _ =>
    point_not_mem_splitAt
  have hne := splitAt_ne_nil '.' table
  rw [isEdgeQuoted, ← joinPoints_splitAt table]
  generalize Text.splitAt '.' table = parts at hpoint hne
  rcases parts with - | ⟨first, - | ⟨next, rest⟩⟩
  · exact absurd rfl hne
  · simp only [pathChars_singleton, joinPoints, quoteName]
    split
    · rename_i hplain
      have hquote := not_mem_of_isPlainName (c := '"') hplain (by decide)
      rw [stripWhere_of_ends]
      · simpa [Alike.refl] using hquote
      · intro c hc
        exact beq_eq_false_iff_ne.2 fun h => hquote (h ▸ List.mem_of_mem_head? hc)
      · intro c hc
        exact beq_eq_false_iff_ne.2 fun h => hquote (h ▸ List.mem_of_mem_getLast? hc)
    · rw [toList_quoted, alike_strip_quoted]
      simp
  · obtain ⟨hfirst, hrest⟩ := List.forall_mem_cons.1 hpoint
    have hstrip : ∀ a r : List Char, Text.stripWhere isMarked (a ++ '.' :: r) =
        a.dropWhile isMarked ++ '.' :: Text.stripEndWhere isMarked r := by
      intro a r
      rw [← stripEndWhere_append_cons (p := isMarked) (by decide),
        ← (Parameter.takeWhile_append_cons (p := isMarked) (by decide) _ _).2]
      rfl
    have hfront : '.' ∉ (quoteName first).toList.dropWhile isMarked := fun hmem =>
      point_not_mem_quoteName hfirst ((List.dropWhile_sublist _).subset hmem)
    rw [pathChars_cons first (by simp), joinPoints_cons first (by simp), hstrip,
      alike_point hfront hfirst, alike_dropWhile_quoteName, alike_stripEnd_path hrest,
      Bool.and_eq_true]

/-! ## What stands before the last point -/

/-- The characters before the last point of a text with a point. -/
def beforeLastPoint (cs : List Char) : List Char :=
  ((cs.reverse.dropWhile (· ≠ '.')).drop 1).reverse

/-- What is written before the last point of a column: the name of the table, and what stands before
a point in the name of the column. -/
def writtenBefore (table column : String) : List Char :=
  (quotePath table).toList ++
    if '.' ∈ column.toList then '.' :: '"' :: doubled '"' (beforeLastPoint column.toList) else []

/-- The name that is taken for that of the table of a written column. -/
def toldTable (table column : String) : String :=
  String.ofList
    (Text.stripWhere isMarked (Text.stripWhere Text.isBlank (writtenBefore table column)))

theorem split_last_point (h : '.' ∈ cs) :
    ∃ after, '.' ∉ after ∧ cs = beforeLastPoint cs ++ '.' :: after := by
  have hmem : '.' ∈ cs.reverse := List.mem_reverse.2 h
  have hsplit := List.takeWhile_append_dropWhile (p := (· ≠ '.')) (l := cs.reverse)
  have htake : '.' ∉ cs.reverse.takeWhile (· ≠ '.') := fun hpoint => by
    simpa using List.all_eq_true.1 List.all_takeWhile _ hpoint
  obtain ⟨before, hbefore⟩ : ∃ before, cs.reverse.dropWhile (· ≠ '.') = '.' :: before := by
    cases hdrop : cs.reverse.dropWhile (· ≠ '.') with
    | nil =>
      rw [hdrop, List.append_nil] at hsplit
      rw [hsplit] at htake
      exact absurd hmem htake
    | cons c before =>
      have hhead := List.head?_dropWhile_not (· ≠ '.') cs.reverse
      rw [hdrop] at hhead
      simp at hhead
      exact ⟨before, by rw [hhead]⟩
  refine ⟨(cs.reverse.takeWhile (· ≠ '.')).reverse, by simpa using htake, ?_⟩
  rw [beforeLastPoint, hbefore, List.drop_one, List.tail_cons]
  rw [hbefore] at hsplit
  have := congrArg List.reverse hsplit
  simpa using this.symm

/-- What stands before the last point of a written column, without blanks and quotes around it. -/
theorem columnQualifier?_columnRef_eq (table column : String) :
    columnQualifier? (columnRef table column) = some (toldTable table column) := by
  have hchars : (columnRef table column).toList =
      (quotePath table).toList ++ '.' :: (quoteName column).toList := by
    rw [columnRef, String.toList_append, String.toList_append, List.append_assoc]
    rfl
  by_cases hpoint : '.' ∈ column.toList
  · obtain ⟨after, hafter, hcolumn⟩ := split_last_point hpoint
    have hquoted : (quoteName column).toList = '"' :: doubled '"' (beforeLastPoint column.toList) ++
        '.' :: (doubled '"' after ++ ['"']) := by
      have hplain : ¬isPlainName column = true := fun hplain =>
        not_mem_of_isPlainName hplain (by decide) hpoint
      rw [quoteName, if_neg hplain, toList_quoted]
      conv_lhs => rw [hcolumn]
      simp [doubled]
    have hend : '.' ∉ doubled '"' after ++ ['"'] := by
      simpa using fun hmem => hafter (mem_of_mem_doubled hmem)
    have hcut : (columnRef table column).toList =
        writtenBefore table column ++ '.' :: (doubled '"' after ++ ['"']) := by
      rw [hchars, hquoted, writtenBefore, if_pos hpoint]
      simp
    exact columnQualifier?_point hcut hend
  · have hcut : (columnRef table column).toList =
        writtenBefore table column ++ '.' :: (quoteName column).toList := by
      rw [hchars, writtenBefore, if_neg hpoint, List.append_nil]
    exact columnQualifier?_point hcut (point_not_mem_quoteName hpoint)

/-- A written column is taken for one of a table exactly if the name that is told from it is that of
the table. -/
theorem refersTo_columnRef (table column name : String) :
    refersTo (columnRef table column) name ↔ Text.sameName (toldTable table column) name := by
  rw [refersTo, columnQualifier?_columnRef_eq, Option.any_some]

/-! ## The name that is told -/

theorem toList_quotePath (table : String) :
    (quotePath table).toList = pathChars (Text.splitAt '.' table) := by
  have hpath : ∀ parts : List String,
      (".".intercalate (parts.map quoteName)).toList = pathChars parts := by
    intro parts
    induction parts with
    | nil => rfl
    | cons name rest ih =>
      cases rest with
      | nil => rw [List.map_singleton, String.intercalate_singleton, pathChars_singleton]
      | cons next rest =>
        rw [pathChars_cons name (by simp), ← ih, List.map_cons, List.map_cons,
          String.intercalate_cons_cons, String.toList_append, String.toList_append,
          List.append_assoc]
        rfl
  exact hpath _

theorem quoteName_ends (name : String) :
    (quoteName name).toList ≠ [] ∧ (∀ c ∈ (quoteName name).toList.head?, Text.isBlank c = false) ∧
      ∀ c ∈ (quoteName name).toList.getLast?, Text.isBlank c = false := by
  unfold quoteName
  split
  · rename_i hplain
    obtain ⟨c, rest, hchars, -⟩ := head_plain hplain
    simp only [isPlainName, Bool.and_eq_true, List.all_eq_true] at hplain
    exact ⟨by rw [hchars]; simp,
      fun c hc => isBlank_of_isNamePart (hplain.2 c (List.mem_of_mem_head? hc)),
      fun c hc => isBlank_of_isNamePart (hplain.2 c (List.mem_of_mem_getLast? hc))⟩
  · rw [toList_quoted]
    refine ⟨by simp, fun c hc => ?_, fun c hc => ?_⟩
    · cases hc
      decide
    · rw [List.getLast?_append, List.getLast?_singleton, Option.some_or] at hc
      cases hc
      decide

theorem strip_blanks_path {parts : List String} (h : parts ≠ []) :
    Text.stripWhere Text.isBlank (pathChars parts) = pathChars parts := by
  have hends : pathChars parts ≠ [] ∧ (∀ c ∈ (pathChars parts).head?, Text.isBlank c = false) ∧
      ∀ c ∈ (pathChars parts).getLast?, Text.isBlank c = false := by
    induction parts with
    | nil => exact absurd rfl h
    | cons name rest ih =>
      obtain ⟨hne, hfirst, hlast⟩ := quoteName_ends name
      by_cases hrest : rest = []
      · rw [hrest]
        exact ⟨hne, hfirst, hlast⟩
      · obtain ⟨hne', -, hlast'⟩ := ih hrest
        rw [pathChars_cons name hrest]
        refine ⟨by simp, fun c hc => hfirst c ?_, fun c hc => hlast' c ?_⟩
        · rwa [List.head?_append_of_ne_nil _ hne] at hc
        · rw [List.getLast?_append_of_ne_nil _ (by simp)] at hc
          rwa [List.getLast?_cons, List.getLast?_eq_some_getLast hne', Option.getD_some,
            ← List.getLast?_eq_some_getLast hne'] at hc
  exact stripWhere_of_ends hends.2.1 hends.2.2

theorem count_point_path {parts : List String} (hpoint : ∀ part ∈ parts, '.' ∉ part.toList) :
    (pathChars parts).count '.' = (joinPoints parts).count '.' := by
  induction parts with
  | nil => rfl
  | cons name rest ih =>
    obtain ⟨hname, hrest⟩ := List.forall_mem_cons.1 hpoint
    have hcount : (quoteName name).toList.count '.' = name.toList.count '.' := by
      rw [List.count_eq_zero_of_not_mem (point_not_mem_quoteName hname),
        List.count_eq_zero_of_not_mem hname]
    by_cases hnil : rest = []
    · rw [hnil]
      exact hcount
    · rw [pathChars_cons name hnil, joinPoints_cons name hnil, List.count_append,
        List.count_append, List.count_cons, List.count_cons, hcount, ih hrest]

theorem count_stripWhere {p : Char → Bool} (hc : p c = false) (cs : List Char) :
    (Text.stripWhere p cs).count c = cs.count c := by
  have hdrop : ∀ l : List Char, (l.dropWhile p).count c = l.count c := by
    intro l
    have hnone : c ∉ l.takeWhile p := fun hmem => by
      have := List.all_eq_true.1 List.all_takeWhile c hmem
      rw [hc] at this
      cases this
    conv_rhs => rw [← List.takeWhile_append_dropWhile (p := p) (l := l), List.count_append,
      List.count_eq_zero_of_not_mem hnone, Nat.zero_add]
  rw [Text.stripWhere, List.count_reverse, hdrop, List.count_reverse, hdrop]

/-- A written column is told to be one of its table exactly if its own name has no point and the
name of the table has quotes at the ends only. -/
theorem sameName_toldTable_iff (table column : String) :
    Text.sameName (toldTable table column) table ↔
      '.' ∉ column.toList ∧ isEdgeQuoted table := by
  rw [sameName_iff_alike, toldTable, String.toList_ofList, writtenBefore, toList_quotePath]
  by_cases hcolumn : '.' ∈ column.toList
  · refine iff_of_false (fun h => ?_) fun h => h.1 hcolumn
    -- what is told has a point more than the name of the table
    have hcount := h.count (c := '.') (by decide) (by decide)
    rw [count_stripWhere (by decide), count_stripWhere (by decide), if_pos hcolumn,
      List.count_append, List.count_cons, count_point_path fun _ => point_not_mem_splitAt,
      joinPoints_splitAt] at hcount
    simp at hcount
  · rw [if_neg hcolumn, List.append_nil, strip_blanks_path (splitAt_ne_nil '.' table),
      alike_strip_path]
    simp [hcolumn]

end QueryCanvas.Sql
