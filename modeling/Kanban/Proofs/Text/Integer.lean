import Kanban.Text.Integer

/-!
# Reading integers

An integer that is read is inside the bounds (`Integer.holds_of_read`).  The decimal text of an
integer reads as this integer, if it is inside the bounds (`Integer.int64?_toString`).
-/

namespace Kanban.Integer

theorem holds_int64_iff {i : Int} :
    Bounds.int64.holds i = true ↔ -9223372036854775808 ≤ i ∧ i ≤ 9223372036854775807 := by
  rw [Bounds.holds, Bool.and_eq_true, decide_eq_true_eq, decide_eq_true_eq]
  rfl

theorem holds_of_readDigits {b : Bounds} {negative : Bool} {acc i : Int} {cs : List Char}
    (hacc : b.holds acc = true) (h : readDigits b negative acc cs = .ok i) : b.holds i = true := by
  induction cs generalizing acc with
  | nil => exact Except.ok.inj h ▸ hacc
  | cons c cs ih =>
    unfold readDigits at h
    split at h
    · -- The number so far was tested before the next digit is read.
      simp only at h
      generalize (if negative = true then 10 * acc - ((c.toNat - 48 : Nat) : Int)
        else 10 * acc + ((c.toNat - 48 : Nat) : Int)) = next at h
      split at h
      · cases h
      split at h
      · cases h
      refine ih ?_ h
      simp only [Bounds.holds, Bool.and_eq_true, decide_eq_true_eq]
      omega
    · cases h

/-- An integer that was read is inside the bounds. -/
theorem holds_of_read {b : Bounds} {cs : List Char} {i : Int} (hzero : b.holds 0 = true)
    (h : read b cs = .ok i) :
    b.holds i = true := by
  unfold read at h
  split at h
  · cases h
  · cases h
  · cases h
  · exact holds_of_readDigits hzero h
  · split at h
    · exact holds_of_readDigits hzero h
    · cases h
  · exact holds_of_readDigits hzero h

/-! ### Decimal text -/

/-- The number with a sign. -/
private def signed (negative : Bool) (n : Nat) : Int := if negative then -n else n

theorem le_ofDigitChars (cs : List Char) (n : Nat) : n ≤ Nat.ofDigitChars 10 cs n := by
  induction cs generalizing n with
  | nil => simp
  | cons c cs ih =>
    rw [Nat.ofDigitChars_cons]
    have hnext := ih (10 * n + (c.toNat - '0'.toNat))
    omega

/-- Digits are read to the end if the number that they make is inside the bounds. -/
private theorem readDigits_signed {b : Bounds} (hleast : b.least ≤ 0) (hgreatest : 0 ≤ b.greatest)
    (negative : Bool) {cs : List Char} (hcs : ∀ c ∈ cs, c.isDigit = true) (n : Nat)
    (hn : b.holds (signed negative n) = true) :
    (readDigits b negative (signed negative n) cs).toOption =
      if b.holds (signed negative (Nat.ofDigitChars 10 cs n))
        then some (signed negative (Nat.ofDigitChars 10 cs n))
      else none := by
  induction cs generalizing n with
  | nil => simp [readDigits, hn, Except.toOption]
  | cons c cs ih =>
    have hrest := le_ofDigitChars cs (10 * n + (c.toNat - '0'.toNat))
    have hnext : (if negative then 10 * signed negative n - ((c.toNat - 48 : Nat) : Int)
        else 10 * signed negative n + ((c.toNat - 48 : Nat) : Int)) =
        signed negative (10 * n + (c.toNat - '0'.toNat)) := by
      have h0 : '0'.toNat = 48 := rfl
      cases negative <;> simp only [signed, h0, if_true, Bool.false_eq_true, if_false] <;> omega
    rw [readDigits, if_pos (hcs c (by simp)), Nat.ofDigitChars_cons]
    simp only [hnext]
    generalize 10 * n + (c.toNat - '0'.toNat) = next at hrest ⊢
    by_cases hin : b.holds (signed negative next) = true
    · have hin' := hin
      simp only [Bounds.holds, Bool.and_eq_true, decide_eq_true_eq] at hin'
      rw [if_neg (by omega), if_neg (by omega)]
      exact ih (fun d hd => hcs d (by simp [hd])) next hin
    · -- Further digits only lead farther out of the bounds.
      have hout : ¬b.holds (signed negative (Nat.ofDigitChars 10 cs next)) = true := by
        simp only [Bounds.holds, Bool.and_eq_true, decide_eq_true_eq] at hin ⊢
        cases negative <;>
          simp only [signed, if_true, Bool.false_eq_true, if_false] at hin ⊢ <;>
          omega
      rw [if_neg hout]
      simp only [Bounds.holds, Bool.and_eq_true, decide_eq_true_eq] at hin
      split
      · rfl
      · rw [if_pos (by omega)]
        rfl

/-- The decimal digits of a number without its sign. -/
theorem toList_toString (i : Int) :
    (toString i).toList = if i < 0 then '-' :: Nat.toDigits 10 i.natAbs
      else Nat.toDigits 10 i.natAbs := by
  rcases i with n | n
  · rw [if_neg (by simp)]
    exact Nat.toList_repr
  · rw [if_pos (Int.negSucc_lt_zero n)]
    show ("-" ++ (n + 1).repr).toList = _
    rw [String.toList_append, Nat.toList_repr]
    rfl

/-- A written integer of 64 bits reads as itself; no other integer can be read. -/
theorem int64?_toString (i : Int) :
    int64? (toString i).toList = if Bounds.int64.holds i then some i else none := by
  have hdigits : ∀ c ∈ Nat.toDigits 10 i.natAbs, c.isDigit = true := fun c hc =>
    Nat.isDigit_of_mem_toDigits (by decide) (by decide) hc
  have hread :=
    fun negative => readDigits_signed (b := .int64) (by decide) (by decide) negative hdigits 0
    (by cases negative <;> decide)
  rw [Nat.ofDigitChars_ten_toDigits] at hread
  have hvalue : signed (decide (i < 0)) i.natAbs = i := by
    unfold signed
    split <;> rename_i h <;> simp only [decide_eq_true_eq] at h <;> omega
  have hzero : ∀ negative, signed negative 0 = 0 := fun negative => by cases negative <;> rfl
  rw [int64?, toList_toString]
  obtain ⟨c, cs, hcons⟩ :=
    List.exists_cons_of_ne_nil (Nat.toDigits_ne_nil (n := i.natAbs) (b := 10))
  have hc := hdigits c (by simp [hcons])
  by_cases hneg : i < 0
  · have h := hread (decide (i < 0))
    rw [hvalue, hzero, decide_eq_true hneg, hcons] at h
    rw [if_pos hneg, hcons]
    exact h
  · have h := hread (decide (i < 0))
    rw [hvalue, hzero, decide_eq_false hneg, hcons] at h
    rw [if_neg hneg, hcons, ← h]
    unfold read
    split <;> simp_all

end Kanban.Integer
