import Kanban.Proofs.Double.Rounding

/-!
# The nearest representable number

A rounded quotient lies on the grid of representable numbers (`step_dvd_nearest`), and no number of
the grid is nearer to the quotient (`two_mul_le_of_nearest_lt`, `le_two_mul_of_lt_nearest`).  So
rounding is monotone, and sums, differences and halves of finite numbers stand at rounded places
(`place_add_eq`, `place_sub_eq`, `place_half`), where `rounded` is the rounding of a whole number of
units.
-/

namespace Kanban.Double

/-! ### Magnitudes -/

theorem step_dvd_mul_pow {a e : Nat} (ha : a ≤ 2 ^ 53) : step (a * 2 ^ e) ∣ a * 2 ^ e := by
  have hdvd : ∀ {b k : Nat}, 0 < b → b < 2 ^ 53 → step (b * 2 ^ k) ∣ b * 2 ^ k := by
    intro b k hpos hb
    have hlog := log2_mul_pow_lt (e := k) hpos hb
    have hstep : step (b * 2 ^ k) ∣ 2 ^ k := Nat.pow_dvd_pow 2 (by omega)
    exact hstep.trans (Nat.dvd_mul_left _ _)
  rcases Nat.eq_zero_or_pos a with rfl | hpos
  · rw [Nat.zero_mul]
    exact Nat.dvd_zero _
  · rcases Nat.lt_or_eq_of_le ha with hlt | rfl
    · exact hdvd hpos hlt
    · -- All 53 digits carried over, which leaves a power of two.
      rw [← Nat.pow_add, ← Nat.one_mul (2 ^ (53 + e))]
      exact hdvd Nat.one_pos (by decide)

/-- Half of a number of the grid, rounded down, is on the grid. -/
theorem step_dvd_half {m : Nat} (hm : step m ∣ m) : step (m / 2) ∣ m / 2 := by
  have hcount := div_step_lt m
  have hm := Nat.div_mul_cancel hm
  cases he : m.log2 - 52 with
  | zero =>
    have hone : step m = 1 := by rw [step, he]
    rw [hone, Nat.div_one] at hcount
    rw [← Nat.mul_one (m / 2)]
    exact step_dvd_mul_pow (e := 0) (by omega)
  | succ e =>
    have hpow : step m = 2 ^ e * 2 := by rw [step, he]; rfl
    have hhalf : m / 2 = m / step m * 2 ^ e := by
      conv_lhs => rw [← hm, hpow, ← Nat.mul_assoc, Nat.mul_div_cancel _ Nat.two_pos]
      rw [hpow]
    rw [hhalf]
    exact step_dvd_mul_pow hcount.le

section

variable {num den : Nat}

/-- A quotient is a number of steps and a rest; its rounding is the nearer one of the two multiples
around it. -/
theorem exists_nearest_eq (num : Nat) (hden : 0 < den) :
    ∃ low rest, num = low * (den * step (num / den)) + rest ∧ rest < den * step (num / den) ∧
      low = num / den / step (num / den) ∧
      (nearest num den = low * step (num / den) ∧ 2 * rest ≤ den * step (num / den) ∨
        nearest num den = (low + 1) * step (num / den) ∧ den * step (num / den) ≤ 2 * rest) := by
  have hunit : 0 < den * step (num / den) := Nat.mul_pos hden (step_pos _)
  refine ⟨num / (den * step (num / den)), num % (den * step (num / den)), ?_, Nat.mod_lt _ hunit,
    (Nat.div_div_eq_div_mul ..).symm, ?_⟩
  · rw [Nat.mul_comm]
    exact (Nat.div_add_mod ..).symm
  · simp only [nearest]
    split
    · exact .inr ⟨rfl, by omega⟩
    · exact .inl ⟨rfl, by omega⟩

/-- No number of the grid lies strictly between neighboring multiples of the step. -/
theorem le_or_le_of_step_dvd {c : Nat} (hc : step c ∣ c) (q : Nat) :
    c ≤ q / step q * step q ∨ (q / step q + 1) * step q ≤ c := by
  by_contra hbetween
  obtain ⟨hlow, hhigh⟩ := not_or.1 hbetween
  have hdvd : step q ∣ c := by
    by_cases hlog : q.log2 ≤ 52
    · have hone : step q = 1 := by rw [step, Nat.sub_eq_zero_of_le hlog]
      rw [hone]
      exact Nat.one_dvd c
    · -- From the greatest power of two below the quotient on, the steps are multiples of its step.
      have hq : q ≠ 0 := by
        rintro rfl
        exact hlog (by decide)
      have hpow : 2 ^ q.log2 = 2 ^ 52 * step q := by
        rw [step, show Nat.pow 2 (q.log2 - 52) = 2 ^ (q.log2 - 52) from rfl, ← Nat.pow_add]
        congr 1
        omega
      have hsteps : 2 ^ 52 ≤ q / step q := by
        rw [Nat.le_div_iff_mul_le (step_pos q), ← hpow]
        exact Nat.log2_self_le hq
      have hle : 2 ^ q.log2 ≤ c := by
        have := Nat.mul_le_mul_right (step q) hsteps
        omega
      have hc0 : c ≠ 0 := (Nat.lt_of_lt_of_le (Nat.two_pow_pos _) hle).ne'
      have hlogs : q.log2 ≤ c.log2 := (Nat.le_log2 hc0).2 hle
      exact (Nat.pow_dvd_pow 2 (by omega)).trans hc
  obtain ⟨k, rfl⟩ := hdvd
  rw [Nat.mul_comm (step q)] at hlow hhigh
  have hlt := Nat.lt_of_mul_lt_mul_right (Nat.lt_of_not_le hlow)
  have hgt := Nat.lt_of_mul_lt_mul_right (Nat.lt_of_not_le hhigh)
  omega

theorem step_dvd_nearest (hden : 0 < den) : step (nearest num den) ∣ nearest num den := by
  obtain ⟨low, rest, -, -, hlow, h⟩ := exists_nearest_eq num hden
  have hcount := div_step_lt (num / den)
  rcases h with ⟨h, -⟩ | ⟨h, -⟩
  · rw [h]
    exact step_dvd_mul_pow (by omega)
  · rw [h]
    exact step_dvd_mul_pow (by omega)

/-- A number of the grid above the rounding is not nearer. -/
theorem two_mul_le_of_nearest_lt (hden : 0 < den) {c : Nat} (hc : step c ∣ c)
    (h : nearest num den < c) :
    2 * num ≤ (nearest num den + c) * den := by
  obtain ⟨low, rest, hnum, hrest, hlow, hcases⟩ := exists_nearest_eq num hden
  have hgrid := le_or_le_of_step_dvd hc (num / den)
  rw [← hlow] at hgrid
  generalize step (num / den) = u at *
  have hnext : (low + 1) * u = low * u + u := Nat.succ_mul low u
  have hexp : low * (den * u) = low * u * den := by rw [Nat.mul_comm den, Nat.mul_assoc]
  rcases hcases with ⟨heq, htie⟩ | ⟨heq, htie⟩
  · rw [heq] at h ⊢
    have hle : low * u + (low * u + u) ≤ low * u + c := by omega
    have := Nat.mul_le_mul_right den hle
    rw [Nat.add_mul, Nat.add_mul, Nat.mul_comm u] at this
    omega
  · rw [heq] at h ⊢
    have hle : low * u + u + (low * u + u) ≤ (low + 1) * u + c := by omega
    have := Nat.mul_le_mul_right den hle
    rw [Nat.add_mul, Nat.add_mul, Nat.mul_comm u] at this
    omega

/-- A number of the grid below the rounding is not nearer. -/
theorem le_two_mul_of_lt_nearest (hden : 0 < den) {c : Nat} (hc : step c ∣ c)
    (h : c < nearest num den) :
    (nearest num den + c) * den ≤ 2 * num := by
  obtain ⟨low, rest, hnum, hrest, hlow, hcases⟩ := exists_nearest_eq num hden
  have hgrid := le_or_le_of_step_dvd hc (num / den)
  rw [← hlow] at hgrid
  generalize step (num / den) = u at *
  have hnext : (low + 1) * u = low * u + u := Nat.succ_mul low u
  have hexp : low * (den * u) = low * u * den := by rw [Nat.mul_comm den, Nat.mul_assoc]
  rcases hcases with ⟨heq, htie⟩ | ⟨heq, htie⟩
  · rw [heq] at h ⊢
    have hle : low * u + c ≤ low * u + low * u := by omega
    have := Nat.mul_le_mul_right den hle
    rw [Nat.add_mul (low * u) (low * u)] at this
    omega
  · rw [heq] at h ⊢
    have hle : (low + 1) * u + c ≤ low * u + u + low * u := by omega
    have := Nat.mul_le_mul_right den hle
    rw [Nat.add_mul (low * u + u), Nat.add_mul (low * u), Nat.mul_comm u] at this
    omega

theorem nearest_mono (hden : 0 < den) {num' : Nat} (h : num ≤ num') :
    nearest num den ≤ nearest num' den := by
  rcases Nat.eq_or_lt_of_le h with rfl | hlt
  · exact le_rfl
  · by_contra hgt
    have hgt := Nat.lt_of_not_le hgt
    have hlow := two_mul_le_of_nearest_lt hden (step_dvd_nearest hden) hgt
    have hhigh := le_two_mul_of_lt_nearest hden (step_dvd_nearest hden) hgt
    rw [Nat.add_comm] at hlow
    omega

end

/-! ### Places -/

/-- The place of the double nearest to a whole number of units; those beyond the limit stand at
it. -/
def rounded (i : Int) : Int := signed (decide (i < 0)) (min (nearest i.natAbs 1) limit)

theorem rounded_of_nonneg {i : Int} (h : 0 ≤ i) : rounded i = min (nearest i.toNat 1) limit := by
  have hneg : decide (i < 0) = false := decide_eq_false (by omega)
  rw [rounded, hneg, show i.natAbs = i.toNat by omega]
  rfl

theorem rounded_zero : rounded 0 = 0 := by
  have hzero : nearest 0 1 = 0 := by decide
  rw [rounded_of_nonneg le_rfl, Int.toNat_zero, hzero, Nat.zero_min]
  rfl

theorem rounded_neg (i : Int) : rounded (-i) = -rounded i := by
  rcases lt_trichotomy i 0 with h | rfl | h
  · simp only [rounded, signed, Int.natAbs_neg, decide_eq_true h,
      decide_eq_false (show ¬-i < 0 by omega)]
    simp
  · rw [Int.neg_zero, rounded_zero, Int.neg_zero]
  · simp only [rounded, signed, Int.natAbs_neg, decide_eq_true (show -i < 0 by omega),
      decide_eq_false (show ¬i < 0 by omega)]
    simp

variable {i c : Int}

/-- A representable number above the rounded place is not nearer. -/
theorem two_mul_le_of_rounded_lt (hc : Representable c.natAbs) (h : rounded i < c) :
    2 * i ≤ rounded i + c := by
  have hone : 0 < 1 := Nat.one_pos
  have hlimit := hc.2
  rcases lt_or_ge i 0 with hi | hi
  · obtain ⟨j, rfl⟩ : ∃ j, i = -j := ⟨-i, by omega⟩
    rw [rounded_neg, rounded_of_nonneg (by omega)] at h ⊢
    rcases lt_or_ge c 0 with hneg | hpos
    · have := le_two_mul_of_lt_nearest hone hc.1 (show c.natAbs < nearest j.toNat 1 by omega)
      omega
    · have := fun hlt : 0 < nearest j.toNat 1 =>
        le_two_mul_of_lt_nearest hone representable_zero.1 hlt
      omega
  · rw [rounded_of_nonneg hi] at h ⊢
    have := two_mul_le_of_nearest_lt hone hc.1 (show nearest i.toNat 1 < c.natAbs by omega)
    omega

/-- A representable number below the rounded place is not nearer. -/
theorem le_two_mul_of_lt_rounded (hc : Representable c.natAbs) (h : c < rounded i) :
    rounded i + c ≤ 2 * i := by
  have := two_mul_le_of_rounded_lt (i := -i) (c := -c) (by rwa [Int.natAbs_neg])
    (by rw [rounded_neg]; omega)
  rw [rounded_neg] at this
  omega

theorem le_rounded (hc : Representable c.natAbs) (h : c ≤ i) : c ≤ rounded i := by
  by_contra hlt
  have := two_mul_le_of_rounded_lt (i := i) hc (by omega)
  omega

theorem rounded_le (hc : Representable c.natAbs) (h : i ≤ c) : rounded i ≤ c := by
  by_contra hlt
  have := le_two_mul_of_lt_rounded (i := i) hc (by omega)
  omega

theorem rounded_eq (hc : Representable c.natAbs) : rounded c = c :=
  le_antisymm (rounded_le hc le_rfl) (le_rounded hc le_rfl)

/-- Rounding is off by less than one step. -/
theorem rounded_close {k u : Nat} (hu : Nat.pow 2 k = u) (hi : i.natAbs < 2 ^ 53 * u)
    (hlimit : (rounded i).natAbs < limit) : i - u ≤ rounded i ∧ rounded i ≤ i + u := by
  have hstep := step_le_of_lt hu hi
  have hle := nearest_le i.natAbs
  have hge := le_nearest i.natAbs
  rcases lt_or_ge i 0 with hneg | hpos
  · obtain ⟨j, rfl⟩ : ∃ j, i = -j := ⟨-i, by omega⟩
    rw [rounded_neg, rounded_of_nonneg (by omega)] at hlimit ⊢
    rw [show (-j).natAbs = j.toNat by omega] at hle hge hstep
    omega
  · rw [rounded_of_nonneg hpos] at hlimit ⊢
    rw [show i.natAbs = i.toNat by omega] at hle hge hstep
    omega

/-! ### Operations -/

theorem place_ofMagnitude {s : Bool} {m : Nat} (hm : step m ∣ m) :
    (ofMagnitude s m).place = signed s (min m limit) := by
  unfold ofMagnitude
  split
  · rename_i hrep
    rw [Nat.min_eq_left hrep.2.le]
    rfl
  · rename_i hrep
    rw [Nat.min_eq_right (Nat.le_of_not_lt fun hlt => hrep ⟨hm, hlt⟩)]
    rfl

theorem representable_place {x : Double} (hx : x.isFinite = true) :
    Representable x.place.natAbs := by
  match x, hx with
  | finite s m hm, _ =>
    rw [place_finite]
    cases s
    · exact hm
    · rw [signed, if_pos rfl, Int.natAbs_neg]
      exact hm

/-- The finite numbers are those between the infinities. -/
theorem isFinite_iff {x : Double} (hx : x.isNaN = false) :
    x.isFinite = true ↔ x.place.natAbs < limit := by
  constructor
  · exact fun h => (representable_place h).2
  · match x, hx with
    | finite s m hm, _ => exact fun _ => rfl
    | infinite s, _ =>
      intro h
      have hplace : (infinite s).place = signed s limit := rfl
      rw [hplace] at h
      cases s <;> simp [signed] at h

/-- No number is beyond the infinities. -/
theorem natAbs_place_le (x : Double) : x.place.natAbs ≤ limit := by
  rcases x with ⟨s, m, hm⟩ | s | s
  · exact (representable_place (x := finite s m hm) rfl).2.le
  · cases s
    · exact le_rfl
    · exact (Int.natAbs_neg limit).le
  · exact Nat.zero_le limit

theorem isFinite_of_lt_of_lt {x y z : Double} (hxy : x < y) (hyz : y < z) : y.isFinite = true := by
  obtain ⟨hx, hy⟩ := isNaN_of_lt hxy
  have hz := (isNaN_of_lt hyz).2
  rw [lt_iff_place hx hy] at hxy
  rw [lt_iff_place hy hz] at hyz
  have hlow := natAbs_place_le x
  have hhigh := natAbs_place_le z
  exact (isFinite_iff hy).2 (by omega)

theorem place_add_eq {x y : Double} (hx : x.isFinite = true) (hy : y.isFinite = true) :
    (x + y).place = rounded (x.place + y.place) := by
  match x, y, hx, hy with
  | finite s m hm, finite t n hn, _, _ =>
    show (add _ _).place = rounded (signed s m + signed t n)
    simp only [add]
    split
    · rename_i hsum
      rw [hsum, place_ofMagnitude representable_zero.1, rounded_zero, Nat.zero_min]
      cases s <;> cases t <;> rfl
    · exact place_ofMagnitude (step_dvd_nearest Nat.one_pos)

theorem place_neg {x : Double} (hx : x.isFinite = true) :
    (neg x).isFinite = true ∧ (neg x).place = -x.place := by
  match x, hx with
  | finite s m hm, _ =>
    refine ⟨rfl, ?_⟩
    cases s <;> simp [neg, place_finite, signed]

theorem place_sub_eq {x y : Double} (hx : x.isFinite = true) (hy : y.isFinite = true) :
    (x - y).place = rounded (x.place - y.place) := by
  obtain ⟨hneg, hplace⟩ := place_neg hy
  have hsub : x - y = x + neg y := by
    match x, y, hx, hy with
    | finite s m hm, finite t n hn, _, _ => rfl
  rw [hsub, place_add_eq hx hneg, hplace, Int.sub_eq_add_neg]

theorem half_finite_eq (s : Bool) {m : Nat} (hm : Representable m) :
    ∃ h : Representable (nearest m 2), (finite s m hm).half = finite s (nearest m 2) h := by
  have hle : nearest m 2 ≤ m := by
    by_contra hgt
    have := le_two_mul_of_lt_nearest Nat.two_pos hm.1 (Nat.lt_of_not_le hgt)
    omega
  have hlimit := hm.2
  have hrep : Representable (nearest m 2) := ⟨step_dvd_nearest Nat.two_pos, by omega⟩
  exact ⟨hrep, ofMagnitude_eq hrep⟩

theorem place_half_of_nonneg {x : Double} (hx : x.isFinite = true) (h : 0 ≤ x.place) :
    x.half.place = nearest x.place.toNat 2 := by
  match x, hx with
  | finite s m hm, _ =>
    obtain ⟨hrep, heq⟩ := half_finite_eq s hm
    rw [heq]
    rw [place_finite] at h ⊢
    rw [place_finite]
    cases s
    · rfl
    · simp only [signed, if_true] at h ⊢
      obtain rfl : m = 0 := by omega
      decide

/-- A half is exact unless the number is odd. -/
theorem place_half {x : Double} (hx : x.isFinite = true) :
    x.half.isFinite = true ∧ x.place - x.place % 2 ≤ 2 * x.half.place ∧
    2 * x.half.place ≤ x.place + x.place % 2 := by
  match x, hx with
  | finite s m hm, _ =>
    have hhalf : step (m / 2) ∣ m / 2 := step_dvd_half hm.1
    have hnear : m - m % 2 ≤ 2 * nearest m 2 ∧ 2 * nearest m 2 ≤ m + m % 2 := by
      rcases lt_trichotomy (nearest m 2) (m / 2) with hlt | heq | hgt
      · have := two_mul_le_of_nearest_lt Nat.two_pos hhalf hlt
        omega
      · omega
      · have := le_two_mul_of_lt_nearest Nat.two_pos hhalf hgt
        omega
    obtain ⟨hrep, heq⟩ := half_finite_eq s hm
    rw [heq, place_finite, place_finite]
    refine ⟨rfl, ?_⟩
    cases s
    · simp only [signed, Bool.false_eq_true, if_false]
      omega
    · simp only [signed, if_true]
      omega

end Kanban.Double
