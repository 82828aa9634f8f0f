import QueryCanvas.Proofs.Sql.Quote
import QueryCanvas.Sql.Lexer

/-!
# Quoted texts are read back

What is written between quotes is read back as it was, whatever follows, where a backslash means
nothing.  Where a backslash escapes what follows it, this holds exactly if every backslash stands in
front of one of the marks of patterns, which keep their backslash.
-/

set_option autoImplicit false

namespace QueryCanvas.Sql

namespace Lexer

variable {d : Dialect} {close : Char} {escapes : Bool}

/-! ## One step of reading -/

theorem body?_double (rest : List Char) :
    body? d close escapes (close :: close :: rest)
      = prepend close (body? d close escapes rest) := by
  rw [body?.eq_def]
  simp

theorem body?_close {rest : List Char} (h : rest.head? ≠ some close) :
    body? d close escapes (close :: rest) = some ([], rest) := by
  rw [body?.eq_def]
  cases rest with
  | nil => simp
  | cons c rest =>
    have hc : c ≠ close := fun heq => h (by rw [heq]; rfl)
    simp [hc]

theorem body?_plain {c : Char} (h : c ≠ close) (hc : c = '\\' → escapes = false)
    (rest : List Char) :
    body? d close escapes (c :: rest) = prepend c (body? d close escapes rest) := by
  rw [body?.eq_def]
  by_cases hslash : c = '\\'
  · subst hslash
    simp [h, hc]
  · simp [h, hslash]

theorem body?_escape (h : close ≠ '\\') (e : Char) (rest : List Char) :
    body? d close true ('\\' :: e :: rest)
      = (body? d close true rest).map fun r => (backslash d e ++ r.1, r.2) := by
  rw [body?.eq_def]
  simp [h.symm]

/-! ## Without escapes -/

/-- A text whose marks are doubled is read up to the mark that closes it. -/
theorem body?_doubled (cs : List Char) {r : List Char} (hr : r.head? ≠ some close) :
    body? d close false (doubled close cs ++ close :: r) = some (cs, r) := by
  induction cs with
  | nil => exact body?_close hr
  | cons c cs ih =>
    rw [doubled, List.flatMap_cons, ← doubled, List.append_assoc]
    by_cases hc : c = close
    · rw [if_pos hc, hc, List.cons_append, List.cons_append, List.nil_append, body?_double, ih]
      rfl
    · rw [if_neg hc, List.cons_append, List.nil_append, body?_plain hc (fun _ => rfl), ih]
      rfl

/-! ## With escapes -/

/-- Whether backslashes in quotes stand for themselves where a backslash escapes what follows: each
stands in front of one of the marks of patterns. -/
def keepsBackslashes : List Char → Bool
  | [] => true
  | c :: rest =>
    if c = '\\' then
      match rest with
      | [] => false
      | e :: rest => (e == '%' || e == '_') && keepsBackslashes rest
    else keepsBackslashes rest

theorem count_backslash_le (d : Dialect) (e : Char) : (backslash d e).count '\\' ≤ 1 := by
  unfold backslash
  split
  iterate 8 decide
  split
  · rename_i h
    have he : e ≠ '\\' := by rintro rfl; simp at h
    simp [he]
  · exact List.count_le_length

theorem prepend_eq_some {c : Char} {read : Option (List Char × List Char)} {out rest : List Char} :
    prepend c read = some (out, rest) ↔ ∃ tail, read = some (tail, rest) ∧ c :: tail = out := by
  simp [prepend, Option.map_eq_some_iff]

/-- Reading makes no backslashes. -/
theorem count_backslash_body? (d : Dialect) (close : Char) (escapes : Bool) (cs : List Char) :
    ∀ {out rest : List Char}, body? d close escapes cs = some (out, rest) →
      out.count '\\' ≤ cs.count '\\' := by
  fun_induction body? d close escapes cs with
  | case1 => simp
  | case2 c _ next rest' _ ih =>
    intro out rest h
    obtain ⟨tail, htail, rfl⟩ := prepend_eq_some.1 h
    have := ih htail
    simp only [List.count_cons]
    omega
  | case3 | case4 =>
    rintro out rest ⟨⟩
    exact Nat.zero_le _
  | case5 c _ hslash e rest' ih =>
    intro out rest h
    obtain ⟨⟨tail, rest⟩, htail, hout⟩ := Option.map_eq_some_iff.1 h
    cases hout
    have hc : c = '\\' := by simp at hslash; exact hslash.1
    have hfirst := count_backslash_le d e
    have := ih htail
    rw [List.count_append, hc, List.count_cons_self, List.count_cons]
    dsimp only
    omega
  | case6 => simp
  | case7 c rest' _ _ ih =>
    intro out rest h
    obtain ⟨tail, htail, rfl⟩ := prepend_eq_some.1 h
    have := ih htail
    simp only [List.count_cons]
    omega

theorem count_backslash_doubled (cs : List Char) :
    (doubled '\'' cs).count '\\' = cs.count '\\' := by
  induction cs with
  | nil => rfl
  | cons c cs ih =>
    rw [doubled, List.flatMap_cons, ← doubled, List.count_append, ih]
    by_cases hc : c = '\''
    · subst hc
      simp
    · rw [if_neg hc, List.count_cons, List.count_cons, List.count_nil]
      omega

/-- Behind a backslash that escapes something else than a mark of patterns, a backslash is lost. -/
theorem count_backslash_escape {e : Char} (he : ¬(e = '%' ∨ e = '_')) (d : Dialect) :
    (backslash d e).count '\\' = if e = '\\' then 1 else 0 := by
  unfold backslash
  split
  iterate 8 rfl
  split
  · rename_i h
    simp at h
    exact absurd h.2 he
  · split <;> simp_all

/-- Nothing makes up for a lost backslash. -/
theorem body?_escape_ne {e : Char} (he : ¬(e = '%' ∨ e = '_')) {d : Dialect} {rest tail : List Char}
    (htail : tail.count '\\' = rest.count '\\') :
    body? d '\'' true ('\\' :: e :: tail) ≠ some ('\\' :: e :: rest, []) := by
  rw [body?_escape (by decide)]
  intro h
  obtain ⟨⟨out, r⟩, hread, hout⟩ := Option.map_eq_some_iff.1 h
  have hle := count_backslash_body? d '\'' true tail hread
  have hcount := congrArg (List.count '\\') (Prod.ext_iff.1 hout).1
  rw [List.count_append, count_backslash_escape he, List.count_cons_self, List.count_cons] at hcount
  simp only [beq_iff_eq] at hcount
  omega

/-- Where a backslash escapes what follows it, what is written between quotes is read back exactly
if every backslash stands in front of a mark of patterns. -/
theorem body?_doubled_escaped (cs : List Char) :
    body? .mysql '\'' true (doubled '\'' cs ++ ['\'']) = some (cs, []) ↔
      keepsBackslashes cs = true := by
  have hcons : ∀ (c : Char) (cs : List Char), doubled '\'' (c :: cs)
      = (if c = '\'' then ['\'', '\''] else [c]) ++ doubled '\'' cs := fun c cs => by
    rw [doubled, List.flatMap_cons, ← doubled]
  fun_induction keepsBackslashes cs with
  | case1 => simpa [doubled] using body?_close (by simp)
  | case2 =>
    have hopen : body? .mysql '\'' true ['\\', '\''] = none := by
      rw [body?_escape (by decide)]
      rfl
    simp [doubled, hopen]
  | case3 e rest ih =>
    by_cases he : e = '%' ∨ e = '_'
    · have hkept : backslash .mysql e = ['\\', e] := by rcases he with rfl | rfl <;> rfl
      have hquote : e ≠ '\'' := by rcases he with rfl | rfl <;> decide
      have hmark : (e == '%' || e == '_') = true := by simpa using he
      rw [hcons, hcons, if_neg (by decide), if_neg hquote, hmark, Bool.true_and]
      refine Iff.trans ?_ ih
      simp only [List.cons_append, List.nil_append]
      rw [body?_escape (by decide), hkept]
      cases body? .mysql '\'' true (doubled '\'' rest ++ ['\'']) with
      | none => simp
      | some r => simp [Prod.ext_iff]
    · have hmark : (e == '%' || e == '_') = false := by simpa using he
      rw [hcons, hcons, if_neg (by decide), hmark, Bool.false_and]
      refine iff_of_false ?_ Bool.false_ne_true
      have hcount := count_backslash_doubled rest
      by_cases hquote : e = '\''
      · subst hquote
        rw [if_pos rfl]
        exact body?_escape_ne he (by simpa using hcount)
      · rw [if_neg hquote]
        exact body?_escape_ne he (by simpa using hcount)
  | case4 c rest hc ih =>
    refine Iff.trans ?_ ih
    rw [hcons, List.append_assoc]
    split
    · rename_i hquote
      rw [hquote, List.cons_append, List.cons_append, List.nil_append, body?_double]
      cases body? .mysql '\'' true (doubled '\'' rest ++ ['\'']) with
      | none => simp [prepend]
      | some r => simp [prepend, Prod.ext_iff]
    · rename_i hquote
      rw [List.cons_append, List.nil_append, body?_plain hquote (fun h => absurd h hc)]
      cases body? .mysql '\'' true (doubled '\'' rest ++ ['\'']) with
      | none => simp [prepend]
      | some r => simp [prepend, Prod.ext_iff]

end Lexer

end QueryCanvas.Sql
