import Kanban.Double.Bits
import Kanban.Proofs.Double.Rounding

/-!
# Numbers and their 64 bits

Every number is the double of its bits (`ofBits_toBits`), so the numbers are exactly what 64 bits
can stand for.  Of a magnitude from `2 ^ 52` on, the fraction lacks the leading digit
(`magnitudeBits_of_le`).
-/

namespace Kanban.Double

theorem fractions_eq : fractions = 2 ^ 52 := rfl

theorem signBit_true : signBit true = 2 ^ 63 := rfl

/-! ### Magnitudes -/

theorem magnitudeBits_of_lt {m : Nat} (h : m < 2 ^ 52) : magnitudeBits m = m := by
  have hlog : m.log2 - 52 = 0 := by
    rcases Nat.eq_zero_or_pos m with rfl | hpos
    · decide
    · have := (Nat.log2_lt hpos.ne').2 h
      omega
  have hstep : step m = 1 := by rw [step, hlog]
  rw [magnitudeBits, hlog, hstep, Nat.zero_mul, Nat.zero_add, Nat.div_one]

theorem magnitudeBits_of_le {m : Nat} (hm : Representable m) (h : 2 ^ 52 ≤ m) :
    ∃ e f, e ≤ 2045 ∧ f < 2 ^ 52 ∧ m = (2 ^ 52 + f) * 2 ^ e ∧
    magnitudeBits m = (e + 1) * 2 ^ 52 + f := by
  have hm0 : m ≠ 0 := by omega
  have hlow : 52 ≤ m.log2 := (Nat.le_log2 hm0).2 h
  have hhigh : m.log2 < 2098 := by
    obtain ⟨n, hn, hlimit⟩ := limit_eq_pow
    have hlt := hm.2
    rw [hlimit] at hlt
    rwa [← hn, Nat.log2_lt hm0]
  have hstep : step m = 2 ^ (m.log2 - 52) := rfl
  have hcount : 2 ^ 52 ≤ m / step m := by
    rw [Nat.le_div_iff_mul_le (step_pos m), hstep, ← Nat.pow_add, Nat.add_sub_cancel' hlow]
    exact Nat.log2_self_le hm0
  have hcarry := div_step_lt m
  refine ⟨m.log2 - 52, m / step m - 2 ^ 52, by omega, by omega, ?_, ?_⟩
  · rw [Nat.add_sub_cancel' hcount, ← hstep, Nat.div_mul_cancel hm.1]
  · rw [magnitudeBits, fractions_eq]
    omega

/-! ### Numbers -/

/-- The fields of a sign and further bits are those that were put together. -/
private theorem fields {s : Bool} {e f : Nat} (he : e < 2048) (hf : f < 2 ^ 52) :
    ((signBit s + (e * 2 ^ 52 + f)) / signBit true % 2 == 1) = s ∧
      (signBit s + (e * 2 ^ 52 + f)) / fractions % 2048 = e ∧
      (signBit s + (e * 2 ^ 52 + f)) % fractions = f := by
  rw [signBit_true, fractions_eq]
  refine ⟨?_, ?_, ?_⟩
  · cases s
    · rw [beq_eq_false_iff_ne]
      simp only [signBit, Bool.false_eq_true, if_false]
      omega
    · rw [beq_iff_eq, signBit_true]
      omega
  · cases s
    · simp only [signBit, Bool.false_eq_true, if_false]
      omega
    · rw [signBit_true]
      omega
  · cases s
    · simp only [signBit, Bool.false_eq_true, if_false]
      omega
    · rw [signBit_true]
      omega

/-- Nothing but the payload of what is not a number gets lost. -/
theorem ofBits_toBits {x : Double} (hx : x.isNaN = false) : ofBits x.toBits = x := by
  match x, hx with
  | infinite s, _ =>
    obtain ⟨hsign, hexponent, hfraction⟩ :=
      fields (s := s) (e := 2047) (f := 0) (by decide) (by decide)
    have hbits : (infinite s).toBits = signBit s + (2047 * 2 ^ 52 + 0) := rfl
    rw [hbits, ofBits, hsign, hexponent, hfraction, if_pos rfl, if_pos rfl]
  | finite s m hm, _ =>
    have hbits : (finite s m hm).toBits = signBit s + magnitudeBits m := rfl
    rcases Nat.lt_or_ge m (2 ^ 52) with hsmall | hlarge
    · obtain ⟨hsign, hexponent, hfraction⟩ := fields (s := s) (e := 0) (by decide) hsmall
      rw [Nat.zero_mul, Nat.zero_add] at hsign hexponent hfraction
      rw [hbits, magnitudeBits_of_lt hsmall, ofBits, hsign, hexponent, hfraction,
        if_neg (by decide), if_pos rfl]
      exact ofMagnitude_eq hm
    · obtain ⟨e, f, he, hf, hmag, hmbits⟩ := magnitudeBits_of_le hm hlarge
      obtain ⟨hsign, hexponent, hfraction⟩ := fields (s := s) (e := e + 1) (by omega) hf
      rw [hbits, hmbits, ofBits, hsign, hexponent, hfraction, if_neg (by omega), if_neg (by omega)]
      have hdecoded : (fractions + f) * Nat.pow 2 (e + 1 - 1) = m := hmag.symm
      rw [hdecoded]
      exact ofMagnitude_eq hm

theorem toBits_lt (x : Double) : x.toBits < 2 ^ 64 := by
  have hsign : ∀ s, signBit s ≤ 2 ^ 63 := fun s => by cases s <;> decide
  have hinfinity : infinityBits = 2047 * 2 ^ 52 := rfl
  rcases x with ⟨s, m, hm⟩ | s | s
  · have hbits : magnitudeBits m < 2 ^ 63 := by
      rcases Nat.lt_or_ge m (2 ^ 52) with hsmall | hlarge
      · rw [magnitudeBits_of_lt hsmall]
        omega
      · obtain ⟨e, f, he, hf, -, hmbits⟩ := magnitudeBits_of_le hm hlarge
        omega
    exact Nat.add_lt_add_of_le_of_lt (hsign s) hbits
  · have := hsign s
    rw [toBits, hinfinity]
    omega
  · have := hsign s
    rw [toBits, hinfinity, fractions_eq]
    omega

end Kanban.Double
