import QueryCanvas.Proofs.Sql.Parts

/-!
# Challenges in different layouts

Criteria on the canvas do not see the layout of its query text.  A criterion on the text sees it at
one kind of place: a wide layout has blanks inside the parentheses of a nested query, the compact
one has none, and blanks are only folded there, not left out.  A keyword that is found in a part of
the text between such places is found in every layout.  Keywords that reach across one of these
places are told apart, and no others.
-/

set_option autoImplicit false

namespace QueryCanvas

open Sql Text

namespace Criterion

/-- The keyword is found in the query text of a layout, but only across a parenthesis of a nested
query: in no part of the query between such parentheses. -/
def StandsAcross (l : Layout) (c : Canvas) (keyword : String) : Prop :=
  (sqlContains keyword).holds c (render l c) = true ∧
    ∀ part ∈ (Script.ofCanvas c).parts,
      Text.contains (plainText (String.ofList part)) (plainText keyword) = false

variable {l l' : Layout} {c : Canvas} {keyword : String}

theorem contains_plainText_iff {s : String} :
    Text.contains (plainText s) (plainText keyword) = true ↔
      plainChars keyword.toList <:+: plainChars s.toList := by
  rw [Text.contains, isPart_iff, toList_plainText, toList_plainText]

/-- A keyword is found in the text of a layout if it is found in the query with the blanks of this
layout inside the parentheses. -/
theorem sqlContains_iff : (sqlContains keyword).holds c (render l c) = true ↔
    plainChars keyword.toList <:+: plainChars ((Script.ofCanvas c).written l.padding) := by
  rw [holds, contains_plainText_iff, plainChars_congr (words_render l c)]

theorem standsAcross_iff : StandsAcross l c keyword ↔
    plainChars keyword.toList <:+: plainChars ((Script.ofCanvas c).written l.padding) ∧
      ∀ part ∈ (Script.ofCanvas c).parts, ¬plainChars keyword.toList <:+: plainChars part := by
  rw [StandsAcross, sqlContains_iff]
  refine and_congr_right fun _ => forall₂_congr fun part _ => ?_
  rw [← Bool.not_eq_true, contains_plainText_iff, String.toList_ofList]

instance (l : Layout) (c : Canvas) (keyword : String) : Decidable (StandsAcross l c keyword) :=
  decidable_of_iff _ standsAcross_iff.symm

/-- What is found in a part of the query is found in every layout. -/
theorem holds_of_part {part : List Char} (hpart : part ∈ (Script.ofCanvas c).parts)
    (h : Text.contains (plainText (String.ofList part)) (plainText keyword) = true) (l : Layout) :
    (sqlContains keyword).holds c (render l c) = true := by
  rw [contains_plainText_iff, String.toList_ofList] at h
  exact sqlContains_iff.2 (h.trans (infix_plainChars (Script.infix_of_mem_parts hpart)))

/-- Two layouts agree on a keyword exactly if it stands across a parenthesis in both or in none. -/
theorem sqlContains_layouts_iff : (sqlContains keyword).holds c (render l c) =
      (sqlContains keyword).holds c (render l' c) ↔
    (StandsAcross l c keyword ↔ StandsAcross l' c keyword) := by
  by_cases hpart : ∃ part ∈ (Script.ofCanvas c).parts,
      Text.contains (plainText (String.ofList part)) (plainText keyword) = true
  · obtain ⟨part, hpart, h⟩ := hpart
    have hnot (l : Layout) : ¬StandsAcross l c keyword := fun hacross => by
      rw [hacross.2 part hpart] at h
      cases h
    rw [holds_of_part hpart h, holds_of_part hpart h]
    exact iff_of_true rfl (iff_of_false (hnot l) (hnot l'))
  · have hiff (l : Layout) : StandsAcross l c keyword ↔
        (sqlContains keyword).holds c (render l c) = true :=
      and_iff_left fun part hmem => by
        simpa using fun h => hpart ⟨part, hmem, h⟩
    rw [hiff, hiff, Bool.eq_iff_iff]

namespace StandsAcross

theorem not_in_part (h : StandsAcross l c keyword) {part : List Char}
    (hpart : part ∈ (Script.ofCanvas c).parts) :
    ¬plainChars keyword.toList <:+: plainChars part := (standsAcross_iff.1 h).2 part hpart

/-- A keyword that stands across a parenthesis has a parenthesis in it. -/
theorem parenthesis (h : StandsAcross l c keyword) :
    '(' ∈ keyword.toList ∨ ')' ∈ keyword.toList := by
  by_contra hnone
  have hlacks {d : Char} (hlow : d.toNat < 97) (hd : d ≠ ' ') (hnot : d ∉ keyword.toList) :
      d ∉ plainChars keyword.toList := fun h => hnot (mem_of_mem_plainChars hlow hd h)
  have hpadding : ∀ c ∈ l.padding, isBlank c := by
    unfold Layout.padding
    split <;> simp [isBlank]
  obtain ⟨first, rest, hparts, hfound⟩ := Script.found_in_parts hpadding
    (hlacks (by decide) (by decide) fun h => hnone (.inl h))
    (hlacks (by decide) (by decide) fun h => hnone (.inr h)) (Script.ofCanvas c) []
    (sqlContains_iff.1 h.1)
  rcases hfound with hfound | ⟨part, hpart, hfound⟩
  · have hmem : first ∈ (Script.ofCanvas c).parts := by simp [hparts]
    exact h.not_in_part hmem hfound
  · have hmem : part ∈ (Script.ofCanvas c).parts := by simp [hparts, hpart]
    exact h.not_in_part hmem hfound

/-- A keyword stands across a parenthesis only in a canvas with named or nested queries. -/
theorem nested (h : StandsAcross l c keyword) : c.ctes ≠ [] ∨ c.root.subqueries ≠ [] := by
  by_contra hnone
  obtain ⟨hctes, hsubs⟩ := not_or.1 hnone
  have hparts : (Script.ofCanvas c).parts = [(Script.ofCanvas c).written l.padding] :=
    Script.parts_eq_written (Script.not_nested_ofCanvas (not_not.1 hctes) (not_not.1 hsubs))
  exact h.not_in_part (by rw [hparts]; exact List.mem_singleton_self _) (sqlContains_iff.1 h.1)

end StandsAcross

theorem standsAcross_congr (hpretty : l.pretty = l'.pretty) :
    StandsAcross l c keyword ↔ StandsAcross l' c keyword := by
  have hpadding : l.padding = l'.padding := by rw [Layout.padding, hpretty, Layout.padding]
  rw [standsAcross_iff, standsAcross_iff, hpadding]

/-- A criterion on the canvas does not see the query text. -/
theorem holds_of_not_sqlContains {k : Criterion} (h : ∀ keyword, k ≠ sqlContains keyword)
    (c : Canvas) (sql sql' : String) : k.holds c sql = k.holds c sql' := by
  cases k with
  | sqlContains keyword => exact absurd rfl (h keyword)
  | _ => rfl

end Criterion

namespace Challenge

open Criterion

/-- **What the layout has to do with a challenge.**  Two layouts of a canvas give the same progress
exactly if each keyword of the challenge stands across a parenthesis of a nested query in both texts
or in neither.  A keyword that stands across one has a parenthesis in it, the canvas has a named or
a nested query, and the indentation does not matter. -/
theorem progress_layouts (challenge : Challenge) (c : Canvas) (l l' : Layout) :
    (challenge.progress c (render l c) = challenge.progress c (render l' c) ↔
      ∀ keyword, sqlContains keyword ∈ challenge.criteria →
        (StandsAcross l c keyword ↔ StandsAcross l' c keyword)) ∧
    ∀ keyword,
      (StandsAcross l c keyword → ('(' ∈ keyword.toList ∨ ')' ∈ keyword.toList) ∧
        (c.ctes ≠ [] ∨ c.root.subqueries ≠ [])) ∧
      (l.pretty = l'.pretty → (StandsAcross l c keyword ↔ StandsAcross l' c keyword)) := by
  refine ⟨?_, fun keyword => ⟨fun h => ⟨h.parenthesis, h.nested⟩, standsAcross_congr⟩⟩
  have houtcomes : challenge.progress c (render l c) = challenge.progress c (render l' c) ↔
      ∀ k ∈ challenge.criteria, k.holds c (render l c) = k.holds c (render l' c) := by
    simp [progress]
  rw [houtcomes]
  constructor
  · exact fun h keyword hmem => sqlContains_layouts_iff.1 (h _ hmem)
  · intro h k hmem
    by_cases hk : ∃ keyword, k = sqlContains keyword
    · obtain ⟨keyword, rfl⟩ := hk
      exact sqlContains_layouts_iff.2 (h keyword hmem)
    · exact holds_of_not_sqlContains (fun keyword heq => hk ⟨keyword, heq⟩) c _ _

/-! ## A keyword at the beginning of a nested query -/

/-- A canvas that reads from a nested query. -/
def nestedSource : Canvas :=
  { ctes := []
    root := { Block.empty with
      subqueries := [{
        id := EntityId.minted 0, role := .fromClause, aliasName := some "n", linkedFilter := none
        frame := default
        block := { Block.empty with
          tables := [.create (EntityId.minted 1) "t" [] default] } }] } }

/-- A challenge to read from a nested query, put as a keyword. -/
def readFromNested : Challenge :=
  { id := "nested", title := "Read from a nested query", description := "", hints := []
    criteria := [.sqlContains "from (select"] }

/-- The keyword is found in the compact text only, in which no blank follows the parenthesis. -/
theorem progress_readFromNested :
    (readFromNested.progress nestedSource (render default nestedSource)).outcomes =
        [(.sqlContains "from (select", false)] ∧
      (readFromNested.progress nestedSource (render .compact nestedSource)).outcomes =
        [(.sqlContains "from (select", true)] := by
  have hwide : (sqlContains "from (select").holds nestedSource (render default nestedSource) =
      false := by
    rw [← Bool.not_eq_true, sqlContains_iff]
    decide +kernel
  have hcompact : (sqlContains "from (select").holds nestedSource (render .compact nestedSource) =
      true := sqlContains_iff.2 (by decide +kernel)
  simp [progress, readFromNested, hwide, hcompact]

/-- The keyword stands across the parenthesis in the compact text, and in the wide one not at
all. -/
theorem progress_layouts_readFromNested :
    StandsAcross .compact nestedSource "from (select" ∧
      ¬StandsAcross default nestedSource "from (select" ∧
      readFromNested.progress nestedSource (render .compact nestedSource) ≠
        readFromNested.progress nestedSource (render default nestedSource) := by
  have hcompact : StandsAcross .compact nestedSource "from (select" := by decide +kernel
  have hwide : ¬StandsAcross default nestedSource "from (select" := by decide +kernel
  refine ⟨hcompact, hwide, fun hsame => hwide ?_⟩
  have hagree := (progress_layouts readFromNested nestedSource .compact default).1.1 hsame
  exact (hagree "from (select" (by simp [readFromNested])).1 hcompact

end Challenge

end QueryCanvas
