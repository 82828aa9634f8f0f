import Mathlib.Data.List.Nodup
import QueryCanvas.Canvas.Id

/-!
# New identifiers never repeat

The identifier of a serial number tells the serial number, so identifiers that a counter gives out
one after the other are all different.  A list of identifiers that were given out while the counter
went from one number to another is what every collection of a freshly drawn block holds.
-/

set_option autoImplicit false

namespace QueryCanvas

namespace EntityId

/-! ## The digits of a serial number -/

/-- The value of a hexadecimal digit in lower case. -/
def digitValue (c : Char) : Nat := if c.isDigit then c.toNat - 48 else c.toNat - 87

/-- The number that hexadecimal digits write, the first digit counting most. -/
def digitsValue (cs : List Char) : Nat := cs.foldl (fun v c => 16 * v + digitValue c) 0

theorem digitValue_digitChar {n : Nat} (h : n < 16) : digitValue n.digitChar = n := by
  have hall : ∀ k : Fin 16, digitValue (Nat.digitChar k.val) = k.val := by decide
  exact hall ⟨n, h⟩

/-- The digits of a number write that number. -/
theorem digitsValue_toDigits (n : Nat) : digitsValue (Nat.toDigits 16 n) = n := by
  induction n using Nat.strongRecOn with
  | ind n ih =>
    rw [Nat.toDigits_eq_if (by decide)]
    split
    · rename_i hlt
      simpa [digitsValue] using digitValue_digitChar hlt
    · rename_i hge
      have hrec := ih (n / 16) (by omega)
      have hlast := digitValue_digitChar (n := n % 16) (by omega)
      simp only [digitsValue] at hrec ⊢
      rw [List.foldl_append, hrec, List.foldl_cons, List.foldl_nil, hlast]
      omega

/-- Zeros in front do not change the number. -/
theorem digitsValue_replicate_zero (k : Nat) (cs : List Char) :
    digitsValue (List.replicate k '0' ++ cs) = digitsValue cs := by
  induction k with
  | zero => rfl
  | succ k ih =>
    have hzero : digitValue '0' = 0 := by decide
    simpa [digitsValue, List.replicate_succ, hzero] using ih

theorem digitsValue_serialDigits (n : Nat) : digitsValue (serialDigits n) = n := by
  rw [serialDigits, digitsValue_replicate_zero, digitsValue_toDigits]

/-- Texts that differ behind a common beginning differ. -/
theorem ofList_eq_of_append_eq {front : String} {cs ds : List Char}
    (h : front ++ String.ofList cs = front ++ String.ofList ds) : cs = ds := by
  have hchars := congrArg String.toList h
  rw [String.toList_append, String.toList_append, String.toList_ofList, String.toList_ofList]
    at hchars
  exact List.append_cancel_left hchars

/-- Different serial numbers have different identifiers. -/
theorem minted_injective {m n : Nat} (h : minted m = minted n) : m = n := by
  have hdigits : serialDigits m = serialDigits n := ofList_eq_of_append_eq (congrArg text h)
  rw [← digitsValue_serialDigits m, hdigits, digitsValue_serialDigits]

/-! ## Identifiers between two states of the counter -/

/-- The identifier was given out while the counter went from `lo` to `hi`. -/
def Between (lo hi : Nat) (id : EntityId) : Prop := ∃ k, lo ≤ k ∧ k < hi ∧ id = minted k

theorem Between.mono {lo lo' hi hi' : Nat} {id : EntityId} (h : Between lo hi id)
    (hlo : lo' ≤ lo) (hhi : hi ≤ hi') : Between lo' hi' id := by
  obtain ⟨k, hl, hh, rfl⟩ := h
  exact ⟨k, by omega, by omega, rfl⟩

/-- The next identifier of a counter. -/
theorem between_minted {lo n : Nat} (h : lo ≤ n) : Between lo (n + 1) (minted n) :=
  ⟨n, h, by omega, rfl⟩

/-- What was given out before is not given out afterwards. -/
theorem Between.ne {lo mid hi : Nat} {a b : EntityId} (ha : Between lo mid a)
    (hb : Between mid hi b) : a ≠ b := by
  obtain ⟨i, -, hi, rfl⟩ := ha
  obtain ⟨j, hj, -, rfl⟩ := hb
  intro heq
  have := minted_injective heq
  omega

end EntityId

/-- In a list of things with different keys, the key of a member finds that member. -/
theorem find?_of_nodup {α : Type} {key : α → EntityId} {l : List α} (hnodup : (l.map key).Nodup)
    {a : α} (ha : a ∈ l) : l.find? (fun x => key x = key a) = some a := by
  cases h : l.find? fun x => decide (key x = key a) with
  | none => exact absurd (List.find?_eq_none.1 h a ha) (by simp)
  | some b =>
    have hb := List.find?_some h
    rw [List.inj_on_of_nodup_map hnodup (List.mem_of_find?_eq_some h) ha (of_decide_eq_true hb)]

/-- Different identifiers, all given out while the counter went from `lo` to `hi`. -/
structure Serial (lo hi : Nat) (ids : List EntityId) : Prop where
  nodup : ids.Nodup
  between : ∀ id ∈ ids, id.Between lo hi

namespace Serial

variable {lo hi : Nat} {ids : List EntityId}

theorem nil : Serial lo hi [] := ⟨List.nodup_nil, by simp⟩

theorem mono {lo' hi' : Nat} (h : Serial lo hi ids) (hlo : lo' ≤ lo) (hhi : hi ≤ hi') :
    Serial lo' hi' ids :=
  ⟨h.nodup, fun id hid => (h.between id hid).mono hlo hhi⟩

/-- A list stays free of repetitions when the next identifier is added to it. -/
theorem push {n : Nat} (h : Serial lo n ids) (hlo : lo ≤ n) :
    Serial lo (n + 1) (ids ++ [EntityId.minted n]) := by
  refine ⟨?_, ?_⟩
  · refine List.nodup_append.2 ⟨h.nodup, by simp, ?_⟩
    intro a ha b hb
    rw [List.mem_singleton.1 hb]
    exact (h.between a ha).ne ⟨n, Nat.le_refl n, Nat.lt_succ_self n, rfl⟩
  · intro id hid
    rcases List.mem_append.1 hid with hid | hid
    · exact (h.between id hid).mono (Nat.le_refl lo) (Nat.le_succ n)
    · rw [List.mem_singleton.1 hid]
      exact EntityId.between_minted hlo

end Serial

end QueryCanvas
