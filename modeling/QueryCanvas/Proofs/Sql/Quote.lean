import QueryCanvas.Sql.Quote

/-!
# Written names can be told apart

A plain name has no quotes and no points, and a quoted one ends at the first quote that is not
doubled.  So a name can be read back from what is written, even where a point and something else
follow, and different columns of tables are written differently.
-/

set_option autoImplicit false

namespace QueryCanvas.Sql

/-! ## The characters of a written name -/

/-- Characters with the marks among them doubled. -/
def doubled (mark : Char) (cs : List Char) : List Char :=
  cs.flatMap fun c => if c = mark then [mark, mark] else [c]

theorem toList_quoted (mark : Char) (s : String) :
    (quoted mark s).toList = mark :: doubled mark s.toList ++ [mark] := by
  rw [quoted, String.toList_ofList]
  rfl

/-- What is doubled ends at the first mark that stands alone. -/
theorem doubled_append_inj {mark : Char} {cs ds r r' : List Char}
    (hr : r.head? ≠ some mark) (hr' : r'.head? ≠ some mark)
    (h : doubled mark cs ++ mark :: r = doubled mark ds ++ mark :: r') : cs = ds ∧ r = r' := by
  induction cs generalizing ds with
  | nil =>
    cases ds with
    | nil => simpa [doubled] using h
    | cons d ds =>
      simp only [doubled, List.flatMap_nil, List.nil_append, List.flatMap_cons] at h
      split at h
      · obtain ⟨-, h⟩ := List.cons.inj h
        exact (hr (by rw [h]; rfl)).elim
      · rename_i hne
        exact (hne (List.cons.inj h).1.symm).elim
  | cons c cs ih =>
    cases ds with
    | nil =>
      simp only [doubled, List.flatMap_nil, List.nil_append, List.flatMap_cons] at h
      split at h
      · obtain ⟨-, h⟩ := List.cons.inj h
        exact (hr' (by rw [← h]; rfl)).elim
      · rename_i hne
        exact (hne (List.cons.inj h).1).elim
    | cons d ds =>
      simp only [doubled, List.flatMap_cons, List.append_assoc] at h
      by_cases hc : c = mark <;> by_cases hd : d = mark
      · rw [if_pos hc, if_pos hd] at h
        obtain ⟨heq, hrest⟩ := ih (List.append_cancel_left h)
        exact ⟨by rw [hc, hd, heq], hrest⟩
      · rw [if_pos hc, if_neg hd] at h
        exact (hd (List.cons.inj h).1.symm).elim
      · rw [if_neg hc, if_pos hd] at h
        exact (hc (List.cons.inj h).1).elim
      · rw [if_neg hc, if_neg hd] at h
        obtain ⟨hhead, htail⟩ := List.cons.inj h
        obtain ⟨heq, hrest⟩ := ih htail
        exact ⟨by rw [hhead, heq], hrest⟩

/-- Nothing follows, or a point does. -/
def EndsName (r : List Char) : Prop := ∀ c ∈ r.head?, c = '.'

theorem takeWhile_plain {s : String} (h : isPlainName s) {r : List Char} (hr : EndsName r) :
    (s.toList ++ r).takeWhile Parameter.isNamePart = s.toList := by
  simp only [isPlainName, Bool.and_eq_true] at h
  rw [List.takeWhile_append_of_pos (List.all_eq_true.1 h.2)]
  cases r with
  | nil => simp
  | cons c rest =>
    have hc : c = '.' := hr c rfl
    rw [hc, List.takeWhile_cons_of_neg (by decide), List.append_nil]

theorem head_plain {s : String} (h : isPlainName s) : ∃ c rest, s.toList = c :: rest ∧ c ≠ '"' := by
  simp only [isPlainName, Bool.and_eq_true] at h
  cases hs : s.toList with
  | nil => simp [hs] at h
  | cons c rest =>
    refine ⟨c, rest, rfl, ?_⟩
    rintro rfl
    have hstart : Parameter.isNameStart '"' = false := by decide
    simp [hs, hstart] at h

/-- A written name can be read back where nothing or a point follows. -/
theorem quoteName_append_inj {s s' : String} {r r' : List Char} (hr : EndsName r)
    (hr' : EndsName r') (h : (quoteName s).toList ++ r = (quoteName s').toList ++ r') :
    s = s' ∧ r = r' := by
  have hmark : ∀ {r : List Char}, EndsName r → r.head? ≠ some '"' := by
    intro r hr hhead
    exact absurd (hr _ hhead) (by decide)
  unfold quoteName at h
  split at h <;> split at h
  · rename_i hs hs'
    have htake := congrArg (List.takeWhile Parameter.isNamePart) h
    rw [takeWhile_plain hs hr, takeWhile_plain hs' hr'] at htake
    refine ⟨String.toList_inj.1 htake, ?_⟩
    rw [htake] at h
    exact List.append_cancel_left h
  · rename_i hs _
    obtain ⟨c, rest, hlist, hc⟩ := head_plain hs
    rw [hlist, toList_quoted] at h
    exact (hc (List.cons.inj h).1).elim
  · rename_i _ hs'
    obtain ⟨c, rest, hlist, hc⟩ := head_plain hs'
    rw [hlist, toList_quoted] at h
    exact (hc (List.cons.inj h).1.symm).elim
  · rw [toList_quoted, toList_quoted] at h
    simp only [List.cons_append, List.append_assoc] at h
    obtain ⟨heq, hrest⟩ := doubled_append_inj (hmark hr) (hmark hr') (List.cons.inj h).2
    exact ⟨String.toList_inj.1 heq, hrest⟩

/-! ## Names with points between them -/

/-- The characters of written names with points between them. -/
def pathChars : List String → List Char
  | [] => []
  | [name] => (quoteName name).toList
  | name :: rest => (quoteName name).toList ++ '.' :: pathChars rest

theorem pathChars_singleton (name : String) : pathChars [name] = (quoteName name).toList := rfl

/-- Names with points between them can be read back. -/
theorem pathChars_injective {names names' : List String} (hne : names ≠ []) (hne' : names' ≠ [])
    (h : pathChars names = pathChars names') : names = names' := by
  induction names generalizing names' with
  | nil => exact (hne rfl).elim
  | cons name rest ih =>
    cases names' with
    | nil => exact (hne' rfl).elim
    | cons name' rest' =>
      have hcut : ∀ (name : String) (rest : List String), ∃ r, EndsName r ∧
          pathChars (name :: rest) = (quoteName name).toList ++ r ∧
          r = if rest = [] then [] else '.' :: pathChars rest := by
        intro name rest
        cases rest with
        | nil => exact ⟨[], fun c hc => absurd hc (Option.not_mem_none c),
            (List.append_nil _).symm, rfl⟩
        | cons next rest => exact ⟨_, by rintro c ⟨⟩; rfl, rfl, rfl⟩
      obtain ⟨r, hr, hpath, hrest⟩ := hcut name rest
      obtain ⟨r', hr', hpath', hrest'⟩ := hcut name' rest'
      rw [hpath, hpath'] at h
      obtain ⟨rfl, rfl⟩ := quoteName_append_inj hr hr' h
      rw [hrest] at hrest'
      by_cases hnil : rest = [] <;> by_cases hnil' : rest' = []
      · rw [hnil, hnil']
      · rw [if_pos hnil, if_neg hnil'] at hrest'
        cases hrest'
      · rw [if_neg hnil, if_pos hnil'] at hrest'
        cases hrest'
      · rw [if_neg hnil, if_neg hnil'] at hrest'
        rw [ih hnil hnil' (List.cons.inj hrest').2]

/-- The pieces of a text make up the text again. -/
theorem intercalate_cutWhere (sep : Char) (cs : List Char) :
    [sep].intercalate (Text.cutWhere (· == sep) cs) = cs := by
  induction cs with
  | nil => simp [Text.cutWhere]
  | cons c rest ih =>
    have hne := Text.cutWhere_ne_nil (· == sep) rest
    rw [Text.cutWhere]
    split
    · rename_i heq
      rw [List.intercalate_cons_of_ne_nil hne, ih, beq_iff_eq.1 heq]
      rfl
    · split
      · rename_i hnil
        exact (hne hnil).elim
      · rename_i piece pieces hpieces
        rw [hpieces] at ih
        rw [List.intercalate_cons_cons_left, ih]

theorem splitAt_injective {sep : Char} {s s' : String}
    (h : Text.splitAt sep s = Text.splitAt sep s') : s = s' := by
  have hpieces : Text.cutWhere (· == sep) s.toList = Text.cutWhere (· == sep) s'.toList := by
    refine List.map_inj_right (fun a b hab => ?_) |>.1 h
    rw [← String.toList_ofList (l := a), hab, String.toList_ofList]
  have hchars := intercalate_cutWhere sep s.toList
  rw [hpieces, intercalate_cutWhere] at hchars
  exact (String.toList_inj.1 hchars).symm

theorem splitAt_ne_nil (sep : Char) (s : String) : Text.splitAt sep s ≠ [] := by
  intro h
  exact Text.cutWhere_ne_nil _ _ (List.map_eq_nil_iff.1 h)

theorem pathChars_append (name : String) {names : List String} (h : names ≠ []) :
    (".".intercalate (names.map quoteName)).toList ++ '.' :: (quoteName name).toList =
      pathChars (names ++ [name]) := by
  induction names with
  | nil => exact (h rfl).elim
  | cons first rest ih =>
    cases rest with
    | nil =>
      rw [List.map_singleton, String.intercalate_singleton]
      rfl
    | cons next rest =>
      have hrest := ih (by simp)
      rw [List.map_cons, List.map_cons, String.intercalate_cons_cons, String.toList_append,
        String.toList_append, List.append_assoc, List.append_assoc, ← List.map_cons, hrest]
      rfl

theorem toList_columnRef (table column : String) :
    (columnRef table column).toList = pathChars (Text.splitAt '.' table ++ [column]) := by
  rw [columnRef, String.toList_append, String.toList_append, quotePath, List.append_assoc]
  exact pathChars_append column (splitAt_ne_nil '.' table)

/-- Different columns are written differently. -/
theorem columnRef_injective {table table' column column' : String}
    (h : columnRef table column = columnRef table' column') :
    table = table' ∧ column = column' := by
  have hchars := congrArg String.toList h
  rw [toList_columnRef, toList_columnRef] at hchars
  have hnames := pathChars_injective (by simp) (by simp) hchars
  obtain ⟨htable, hcolumn⟩ := List.append_inj' hnames rfl
  exact ⟨splitAt_injective htable, (List.cons.inj hcolumn).1⟩

end QueryCanvas.Sql
