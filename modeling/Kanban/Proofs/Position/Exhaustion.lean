import Mathlib.Data.Finset.Card
import Kanban.Proofs.Position.Room

/-!
# Gaps are used up

Narrowing a gap again and again ends, whichever sides are narrowed (`Gap.narrowWhile_exhausts`).
What decreases is the number of doubles strictly inside the gap (`Gap.room`): the key of a gap that
is not exhausted is one of them, and it is outside of both gaps that it makes
(`Gap.card_room_narrow`).  There are fewer than `2 ^ 64` finite doubles, and the keys are all
different since each lies inside every gap before it.
-/

namespace Kanban.Position

open Double

namespace Gap

/-- The number is finite and lies strictly between the neighbors. -/
def Holds (g : Gap) (x : Double) : Prop :=
  x.isFinite = true ∧ (∀ b ∈ g.before, b < x) ∧ ∀ a ∈ g.after, x < a

instance (g : Gap) (x : Double) : Decidable (g.Holds x) := by
  unfold Holds; infer_instance

/-- The gap after so many turns. -/
def narrowed (turns : Nat → Side) (g : Gap) : Nat → Gap
  | 0 => g
  | n + 1 => (narrowed turns g n).narrow (turns n)

/-- The bits of the finite doubles strictly inside the gap. -/
def room (g : Gap) : Finset Nat := (Finset.range (2 ^ 64)).filter fun bits => g.Holds (ofBits bits)

variable {g : Gap} {x y z : Double} {turns : Nat → Side} {side : Side} {n : Nat}

/-! ### One turn -/

theorem isExhausted_eq_false : g.isExhausted = false ↔ g.Holds g.key := needsRebalance_eq_false

/-- A narrowed gap lies on one side of the key. -/
theorem holds_of_narrow (h : g.Holds g.key) (hx : (g.narrow side).Holds x) :
    g.Holds x ∧ (g.key < x ∨ x < g.key) := by
  obtain ⟨hfin, hbefore, hafter⟩ := hx
  cases side with
  | before =>
    have hlt : g.key < x := hbefore g.key rfl
    exact ⟨⟨hfin, fun b hb => lt_trans (h.2.1 b hb) hlt, hafter⟩, .inl hlt⟩
  | after =>
    have hlt : x < g.key := hafter g.key rfl
    exact ⟨⟨hfin, hbefore, fun a ha => lt_trans hlt (h.2.2 a ha)⟩, .inr hlt⟩

theorem mem_room {bits : Nat} : bits ∈ g.room ↔ bits < 2 ^ 64 ∧ g.Holds (ofBits bits) := by
  rw [room, Finset.mem_filter, Finset.mem_range]

theorem toBits_mem_room (h : g.Holds x) : x.toBits ∈ g.room := by
  rw [mem_room, ofBits_toBits (isNaN_of_isFinite h.1)]
  exact ⟨toBits_lt x, h⟩

/-- Every turn takes at least the key out of the gap. -/
theorem card_room_narrow (h : g.Holds g.key) (side : Side) :
    (g.narrow side).room.card < g.room.card := by
  refine Finset.card_lt_card (Finset.ssubset_iff_subset_ne.2 ⟨?_, ?_⟩)
  · intro bits hbits
    rw [mem_room] at hbits ⊢
    exact ⟨hbits.1, (holds_of_narrow h hbits.2).1⟩
  · intro heq
    have hkey := toBits_mem_room h
    rw [← heq, mem_room, ofBits_toBits (isNaN_of_isFinite h.1)] at hkey
    rcases (holds_of_narrow h hkey.2).2 with hlt | hlt
    · exact lt_asymm hlt hlt
    · exact lt_asymm hlt hlt

/-- Two of the `2 ^ 64` doubles are infinite. -/
theorem card_room_le (g : Gap) : g.room.card ≤ 2 ^ 64 - 2 := by
  have hinfinite : ∀ s, (infinite s).toBits ∉ g.room := by
    intro s hbits
    have hfin := (mem_room.1 hbits).2.1
    rw [ofBits_toBits rfl] at hfin
    cases hfin
  have hsub : g.room ⊆ ((Finset.range (2 ^ 64)).erase (infinite false).toBits).erase
      (infinite true).toBits := by
    intro bits hbits
    rw [Finset.mem_erase, Finset.mem_erase, Finset.mem_range]
    refine ⟨?_, ?_, (mem_room.1 hbits).1⟩
    · rintro rfl
      exact hinfinite true hbits
    · rintro rfl
      exact hinfinite false hbits
  have hcard := Finset.card_le_card hsub
  have hne : (infinite true).toBits ≠ (infinite false).toBits := by decide +kernel
  rwa [Finset.card_erase_of_mem (Finset.mem_erase.2 ⟨hne, Finset.mem_range.2 (toBits_lt _)⟩),
    Finset.card_erase_of_mem (Finset.mem_range.2 (toBits_lt _)), Finset.card_range] at hcard

/-! ### All turns -/

theorem card_room_narrowed (h : ∀ k < n, (g.narrowed turns k).Holds (g.narrowed turns k).key) :
    (g.narrowed turns n).room.card + n ≤ g.room.card := by
  induction n with
  | zero => rw [narrowed, Nat.add_zero]
  | succ n ih =>
    have hle := ih fun k hk => h k (by omega)
    have hlt := card_room_narrow (h n (by omega)) (turns n)
    rw [narrowed]
    omega

/-- What lies inside a gap was inside all gaps before it, and beside their keys. -/
theorem lt_or_lt_of_narrowed (h : ∀ k < n, (g.narrowed turns k).Holds (g.narrowed turns k).key)
    (hx : (g.narrowed turns n).Holds x) {j : Nat} (hj : j < n) :
    (g.narrowed turns j).key < x ∨ x < (g.narrowed turns j).key := by
  induction n with
  | zero => omega
  | succ n ih =>
    obtain ⟨hx, hside⟩ := holds_of_narrow (h n (by omega)) hx
    rcases Nat.lt_succ_iff_lt_or_eq.1 hj with hlt | rfl
    · exact ih (fun k hk => h k (by omega)) hx hlt
    · exact hside

theorem narrowed_succ (turns : Nat → Side) (g : Gap) (n : Nat) :
    g.narrowed turns (n + 1) = (g.narrow (turns 0)).narrowed (fun i => turns (i + 1)) n := by
  induction n with
  | zero => rfl
  | succ n ih => rw [narrowed, ih, narrowed]

/-- The loop stops at the first gap that is exhausted. -/
theorem narrowWhile_eq {most start : Nat} (hmost : n ≤ most)
    (h : ∀ k < n, (g.narrowed (fun i => turns (start + i)) k).isExhausted = false)
    (hend : (g.narrowed (fun i => turns (start + i)) n).isExhausted = true) :
    narrowWhile turns most start g = (start + n, g.narrowed (fun i => turns (start + i)) n) := by
  induction most generalizing start n g with
  | zero =>
    obtain rfl : n = 0 := by omega
    rfl
  | succ most ih =>
    rw [narrowWhile]
    cases n with
    | zero =>
      rw [narrowed] at hend ⊢
      rw [if_pos hend, Nat.add_zero]
    | succ n =>
      have hfirst : g.isExhausted = false := h 0 (by omega)
      have hturns : (fun i => turns (start + (i + 1))) = fun i => turns (start + 1 + i) := by
        funext i
        rw [Nat.add_assoc, Nat.add_comm 1]
      have hshift : ∀ k, g.narrowed (fun i => turns (start + i)) (k + 1) =
          (g.narrow (turns start)).narrowed (fun i => turns (start + 1 + i)) k := fun k => by
        rw [narrowed_succ, hturns]
        rfl
      rw [hshift] at hend ⊢
      rw [if_neg (by simp [hfirst]),
        ih (by omega) (fun k hk => hshift k ▸ h (k + 1) (by omega)) hend,
        Nat.add_right_comm, Nat.add_assoc]

/-! ### Gaps between numbers -/

/-- Two finite neighbors whose difference does not overflow. -/
structure Between (g : Gap) (x y : Double) : Prop where
  before : g.before = some x
  after : g.after = some y
  finite_before : x.isFinite = true
  finite_after : y.isFinite = true
  finite_sub : (y - x).isFinite = true

/-- A smaller difference does not overflow either. -/
theorem isFinite_sub_of_le {x' y' : Double} (hx : x.isFinite = true) (hy : y.isFinite = true)
    (hsub : (y - x).isFinite = true) (hx' : x'.isFinite = true) (hy' : y'.isFinite = true)
    (hlow : x.place ≤ x'.place) (hlt : x'.place ≤ y'.place) (hhigh : y'.place ≤ y.place) :
    (y' - x').isFinite = true := by
  have hlimit := (representable_place hsub).2
  rw [place_sub_eq hy hx, rounded_of_nonneg (by omega)] at hlimit
  rw [isFinite_iff (isNaN_sub (isNaN_of_isFinite hy') hx'), place_sub_eq hy' hx',
    rounded_of_nonneg (by omega)]
  have hmono :=
    nearest_mono Nat.one_pos (show (y'.place - x'.place).toNat ≤ (y.place - x.place).toNat by omega)
  omega

theorem Between.narrow (hg : g.Between x y) (h : g.Holds g.key) (side : Side) :
    ∃ x y, (g.narrow side).Between x y := by
  obtain ⟨hfin, hbefore, hafter⟩ := h
  have hnum := isNaN_of_isFinite hfin
  have hlow := (lt_iff_place (isNaN_of_isFinite hg.finite_before) hnum).1 (hbefore x hg.before)
  have hhigh := (lt_iff_place hnum (isNaN_of_isFinite hg.finite_after)).1 (hafter y hg.after)
  have hsub : ∀ {x' y' : Double}, x'.isFinite = true → y'.isFinite = true → x.place ≤ x'.place →
      x'.place ≤ y'.place →
      y'.place ≤ y.place → (y' - x').isFinite = true :=
        isFinite_sub_of_le hg.finite_before hg.finite_after hg.finite_sub
  cases side with
  | before => exact ⟨_, _, rfl, hg.after, hfin, hg.finite_after,
      hsub hfin hg.finite_after hlow.le hhigh.le le_rfl⟩
  | after => exact ⟨_, _, hg.before, rfl, hg.finite_before, hfin,
      hsub hg.finite_before hfin le_rfl hlow.le hhigh.le⟩

theorem Between.narrowed (hg : g.Between x y)
    (h : ∀ k < n, (g.narrowed turns k).Holds (g.narrowed turns k).key) :
    ∃ x y, (g.narrowed turns n).Between x y := by
  induction n with
  | zero => exact ⟨x, y, hg⟩
  | succ n ih =>
    obtain ⟨x', y', hn⟩ := ih fun k hk => h k (by omega)
    exact hn.narrow (h n (by omega)) (turns n)

/-- An exhausted gap between such neighbors holds no double at all. -/
theorem Between.not_holds (hg : g.Between x y) (hend : g.isExhausted = true) (z : Double) :
    ¬g.Holds z := by
  intro hz
  have hkey :=
    lt_allocate_lt hg.finite_before hg.finite_after hg.finite_sub (hz.2.1 x hg.before)
      (hz.2.2 y hg.after)
  have hholds : g.Holds g.key := by
    rw [key, hg.before, hg.after]
    refine ⟨hkey.1, ?_, ?_⟩
    · intro b hb
      rw [hg.before] at hb
      exact Option.some.inj hb ▸ hkey.2.1
    · intro a ha
      rw [hg.after] at ha
      exact Option.some.inj ha ▸ hkey.2.2
  rw [isExhausted_eq_false.2 hholds] at hend
  cases hend

/-! ### The end -/

/-- Whatever the neighbors are and whichever sides are narrowed, the gap is exhausted after fewer
than `2 ^ 64` turns.  Until then all keys are finite, strictly between their neighbors and different
from each other.  A gap between two finite numbers whose difference does not overflow then holds no
double any more. -/
theorem narrowWhile_exhausts (turns : Nat → Side) (g : Gap) :
    ∃ n, n + 1 < 2 ^ 64 ∧ (∀ most, n ≤ most →
      narrowWhile turns most 0 g = (n, g.narrowed turns n)) ∧
      (g.narrowed turns n).isExhausted = true ∧
      (∀ k < n, (g.narrowed turns k).Holds (g.narrowed turns k).key) ∧
      (∀ j k, j < k → k < n → (g.narrowed turns j).key < (g.narrowed turns k).key ∨
        (g.narrowed turns k).key < (g.narrowed turns j).key) ∧
      ∀ x y, g.Between x y → ∀ z, ¬(g.narrowed turns n).Holds z := by
  have hends : ∃ n, (g.narrowed turns n).isExhausted = true := by
    by_contra hnever
    have hholds : ∀ k < 2 ^ 64, (g.narrowed turns k).Holds (g.narrowed turns k).key := fun k _ =>
      isExhausted_eq_false.1 (Bool.eq_false_of_not_eq_true fun hend => hnever ⟨k, hend⟩)
    have := card_room_narrowed hholds
    have := card_room_le g
    omega
  have hend := Nat.find_spec hends
  have hopen : ∀ k < Nat.find hends, (g.narrowed turns k).isExhausted = false := fun k hk =>
    Bool.eq_false_of_not_eq_true (Nat.find_min hends hk)
  have hholds : ∀ k < Nat.find hends, (g.narrowed turns k).Holds (g.narrowed turns k).key :=
    fun k hk => isExhausted_eq_false.1 (hopen k hk)
  refine ⟨Nat.find hends, ?_, ?_, hend, hholds, ?_, ?_⟩
  · have := card_room_narrowed hholds
    have := card_room_le g
    omega
  · intro most hmost
    have hloop : narrowWhile turns most 0 g =
        (0 + Nat.find hends, g.narrowed (fun i => turns (0 + i)) (Nat.find hends)) := by
      refine narrowWhile_eq hmost ?_ ?_
      · simpa only [Nat.zero_add] using hopen
      · simpa only [Nat.zero_add] using hend
    simpa only [Nat.zero_add] using hloop
  · intro j k hjk hk
    exact lt_or_lt_of_narrowed (fun i hi => hholds i (by omega)) (hholds k hk) hjk
  · intro x y hg
    obtain ⟨x', y', hlast⟩ := hg.narrowed hholds
    exact hlast.not_holds hend

/-- The sides in turn. -/
def alternating (n : Nat) : Side := if n % 2 = 0 then .before else .after

/-- Seven doubles lie between `2 ^ 52` and `2 ^ 52 + 8`; narrowed on both sides in turn, the gap is
used up after three of them. -/
theorem narrowWhile_exhausts_alternating :
    ∃ last,
      narrowWhile alternating 64 0 ⟨some (ofInt (2 ^ 52)), some (ofInt (2 ^ 52 + 8))⟩ = (3, last) ∧
      last.isExhausted = true ∧ ∀ z, ¬last.Holds z := by
  obtain ⟨n, -, hloop, hend, hholds, -, hnone⟩ :=
    narrowWhile_exhausts alternating ⟨some (ofInt (2 ^ 52)), some (ofInt (2 ^ 52 + 8))⟩
  have hexhausted :
      (narrowed alternating ⟨some (ofInt (2 ^ 52)), some (ofInt (2 ^ 52 + 8))⟩ 3).isExhausted =
        true := by
    decide +kernel
  have hle : n ≤ 3 := by
    by_contra hgt
    have hopen := isExhausted_eq_false.2 (hholds 3 (by omega))
    rw [hexhausted] at hopen
    cases hopen
  have hrun := hloop 64 (by omega)
  have hcount :
      (narrowWhile alternating 64 0 ⟨some (ofInt (2 ^ 52)), some (ofInt (2 ^ 52 + 8))⟩).1 = 3 := by
    decide +kernel
  rw [hrun] at hcount
  obtain rfl : n = 3 := hcount
  refine ⟨_, hrun, hend, hnone (ofInt (2 ^ 52)) (ofInt (2 ^ 52 + 8)) ?_⟩
  exact ⟨rfl, rfl, by decide +kernel, by decide +kernel, by decide +kernel⟩

end Gap

end Kanban.Position
