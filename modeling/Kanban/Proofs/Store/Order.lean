import Mathlib.Data.Prod.Lex
import Kanban.Proofs.Double.Order
import Kanban.Proofs.Store.Table

/-!
# The order of rows

Rows are ordered by a key and, where keys are equal, by id.  As long as the keys are numbers this is
the lexicographic order of the places of the keys and the ids (`keyLe_iff_spot`).  No two rows with
different ids share a spot, so sorting yields the one strictly increasing arrangement of the rows
(`increasing_mergeSort`, `mergeSort_eq_of_increasing`).
-/

namespace Kanban

/-! ### Spots -/

/-- Where a row with a key and an id stands. -/
def spot (x : Double) (i : Int) : Int ×ₗ Int := toLex (x.place, i)

theorem spot_lt_iff {x y : Double} {i j : Int} :
    spot x i < spot y j ↔ x.place < y.place ∨ x.place = y.place ∧ i < j :=
  Prod.Lex.toLex_lt_toLex

theorem spot_le_iff {x y : Double} {i j : Int} :
    spot x i ≤ spot y j ↔ x.place < y.place ∨ x.place = y.place ∧ i ≤ j :=
  Prod.Lex.toLex_le_toLex

/-- A spot belongs to one id only. -/
theorem eq_of_spot_eq {x y : Double} {i j : Int} (h : spot x i = spot y j) : i = j :=
  congrArg (fun p : Int ×ₗ Int => (ofLex p).2) h

theorem keyLe_iff_spot {x y : Double} {i j : Int} (hx : x.isNaN = false) (hy : y.isNaN = false) :
    keyLe x i y j = true ↔ spot x i ≤ spot y j := by
  simp only [keyLe, spot_le_iff, Bool.or_eq_true, Bool.and_eq_true, Bool.not_eq_true',
    decide_eq_true_eq, decide_eq_false_iff_not, Double.lt_iff_place hx hy,
    Double.lt_iff_place hy hx]
  omega

/-! ### Inserted rows -/

section

variable {α : Type} {R : α → α → Prop} {L : List α} {x : α} {j : Nat}

/-- A row inserted between the right neighbors keeps the rows in their order. -/
theorem pairwise_insertIdx (htrans : ∀ a b c, R a b → R b c → R a c) (hL : L.Pairwise R)
    (hj : j ≤ L.length) (hbefore : ∀ y, j ≠ 0 → L[j - 1]? = some y → R y x)
    (hafter : ∀ y, L[j]? = some y → R x y) :
    (L.insertIdx j x).Pairwise R := by
  induction L generalizing j with
  | nil =>
    obtain rfl : j = 0 := by simpa using hj
    simp
  | cons a L ih =>
    rw [List.pairwise_cons] at hL
    cases j with
    | zero =>
      have hxa : R x a := hafter a rfl
      rw [List.insertIdx_zero, List.pairwise_cons, List.pairwise_cons]
      refine ⟨fun y hy => ?_, hL⟩
      rcases List.mem_cons.1 hy with rfl | hy
      · exact hxa
      · exact htrans _ _ _ hxa (hL.1 y hy)
    | succ j =>
      rw [List.length_cons] at hj
      -- The head is the neighbor itself, or it precedes the neighbor.
      have hax : R a x := by
        cases j with
        | zero => exact hbefore a (by simp) rfl
        | succ k =>
          have hk : k < L.length := by omega
          have hy : (a :: L)[k + 1 + 1 - 1]? = some L[k] := by simp [hk]
          exact htrans _ _ _ (hL.1 _ (List.getElem_mem hk)) (hbefore _ (by simp) hy)
      rw [List.insertIdx_succ_cons, List.pairwise_cons]
      constructor
      · intro y hy
        rw [List.mem_insertIdx (by omega)] at hy
        rcases hy with rfl | hy
        · exact hax
        · exact hL.1 y hy
      · refine ih hL.2 (by omega) (fun y hj0 hy => hbefore y (by simp) ?_) fun y hy =>
          hafter y (by simpa using hy)
        obtain ⟨k, rfl⟩ := Nat.exists_eq_succ_of_ne_zero hj0
        simpa using hy

/-- Rows with one inserted are in order exactly if it stands between its neighbors. -/
theorem pairwise_insertIdx_iff (htrans : ∀ a b c, R a b → R b c → R a c) (hL : L.Pairwise R)
    (hj : j ≤ L.length) :
    (L.insertIdx j x).Pairwise R ↔
      (∀ y, j ≠ 0 → L[j - 1]? = some y → R y x) ∧ ∀ y, L[j]? = some y → R x y := by
  constructor
  · intro h
    rw [List.pairwise_iff_getElem] at h
    have hlength : (L.insertIdx j x).length = L.length + 1 :=
      List.length_insertIdx_of_le_length hj x
    constructor
    · intro y hj0 hy
      obtain ⟨hlt, rfl⟩ := List.getElem?_eq_some_iff.1 hy
      have hpair := h (j - 1) j (by omega) (by omega) (by omega)
      rwa [List.getElem_insertIdx_of_lt (by omega), List.getElem_insertIdx_self] at hpair
    · intro y hy
      obtain ⟨hlt, rfl⟩ := List.getElem?_eq_some_iff.1 hy
      have hpair := h j (j + 1) (by omega) (by omega) (by omega)
      rwa [List.getElem_insertIdx_self, List.getElem_insertIdx_of_gt (by omega)] at hpair
  · rintro ⟨hbefore, hafter⟩
    exact pairwise_insertIdx htrans hL hj hbefore hafter

end

/-! ### Sorting -/

section

variable {α β : Type} [LinearOrder β] {f : α → β} {le : α → α → Bool} {rows L L' : List α}

private theorem mergeSort_eq (hle : ∀ a ∈ rows, ∀ b ∈ rows, le a b = true ↔ f a ≤ f b) :
    rows.mergeSort le = rows.mergeSort fun a b => decide (f a ≤ f b) := by
  have hid :=
      List.map_mergeSort (f := id) (s := fun a b => decide (f a ≤ f b)) (l := rows) (r := le) (by
    intro a ha b hb
    rw [Bool.eq_iff_iff, decide_eq_true_iff]
    exact hle a ha b hb)
  rwa [List.map_id, List.map_id] at hid

theorem sorted_mergeSort (hle : ∀ a ∈ rows, ∀ b ∈ rows, le a b = true ↔ f a ≤ f b) :
    (rows.mergeSort le).Pairwise (f · ≤ f ·) := by
  rw [mergeSort_eq hle]
  have htrans : ∀ a b c : α, decide (f a ≤ f b) → decide (f b ≤ f c) → decide (f a ≤ f c) := by
    simpa using fun a b c h h' => le_trans h h'
  have htotal : ∀ a b : α, decide (f a ≤ f b) || decide (f b ≤ f a) := by
    simpa using fun a b => le_total (f a) (f b)
  simpa using List.pairwise_mergeSort htrans htotal rows

/-- Sorted rows increase strictly if no two of them stand at one spot. -/
theorem increasing_of_nodup (h : L.Pairwise (f · ≤ f ·)) (hf : (L.map f).Nodup) :
    L.Pairwise (f · < f ·) :=
  (h.and (List.pairwise_map.1 hf)).imp fun h => lt_of_le_of_ne h.1 h.2

theorem increasing_mergeSort (hle : ∀ a ∈ rows, ∀ b ∈ rows, le a b = true ↔ f a ≤ f b)
    (hf : (rows.map f).Nodup) :
    (rows.mergeSort le).Pairwise (f · < f ·) :=
  increasing_of_nodup (sorted_mergeSort hle) (((List.mergeSort_perm rows le).map f).nodup_iff.2 hf)

/-- The rows have one strictly increasing arrangement. -/
theorem eq_of_increasing (hperm : L.Perm L') (h : L.Pairwise (f · < f ·))
    (h' : L'.Pairwise (f · < f ·)) : L = L' :=
  hperm.eq_of_pairwise (fun _ _ _ _ hab hba => absurd hba (lt_asymm hab)) h h'

theorem mergeSort_eq_of_increasing (hle : ∀ a ∈ rows, ∀ b ∈ rows, le a b = true ↔ f a ≤ f b)
    (hperm : L.Perm rows) (h : L.Pairwise (f · < f ·)) : rows.mergeSort le = L := by
  have hf : (rows.map f).Nodup := (hperm.map f).nodup_iff.1 (List.pairwise_map.2 (h.imp ne_of_lt))
  exact eq_of_increasing ((List.mergeSort_perm _ _).trans hperm.symm)
    (increasing_mergeSort hle hf) h

/-- Sorting does not change rows among each other that increase as they are. -/
theorem filter_mergeSort_of_increasing (hle : ∀ a ∈ rows, ∀ b ∈ rows, le a b = true ↔ f a ≤ f b)
    {P : α → Bool} (h : (rows.filter P).Pairwise (f · < f ·)) :
    (rows.mergeSort le).filter P = rows.filter P := by
  have hperm : ((rows.mergeSort le).filter P).Perm (rows.filter P) :=
    (List.mergeSort_perm rows le).filter P
  have hf : (((rows.mergeSort le).filter P).map f).Nodup :=
    (hperm.map f).nodup_iff.2 (List.pairwise_map.2 (h.imp ne_of_lt))
  exact eq_of_increasing hperm (increasing_of_nodup ((sorted_mergeSort hle).filter P) hf) h

/-- Of increasing rows two stand next to each other exactly if no row stands between their spots. -/
theorem pair_infix_iff_of_increasing {x y : α} (h : L.Pairwise (f · < f ·)) (hx : x ∈ L)
    (hy : y ∈ L) :
    [x, y] <:+: L ↔ f x < f y ∧ ∀ z ∈ L, f x < f z → ¬ f z < f y := by
  constructor
  · rintro ⟨P, S, rfl⟩
    simp only [List.append_assoc, List.cons_append, List.nil_append, List.pairwise_append,
      List.pairwise_cons] at h
    obtain ⟨-, ⟨hxS, hyS, -⟩, hP⟩ := h
    refine ⟨hxS y (by simp), fun z hz hxz hzy => ?_⟩
    simp only [List.append_assoc, List.cons_append, List.nil_append, List.mem_append,
      List.mem_cons] at hz
    rcases hz with hz | rfl | rfl | hz
    · exact lt_asymm hxz (hP z hz x (by simp))
    · exact lt_irrefl _ hxz
    · exact lt_irrefl _ hzy
    · exact lt_asymm hzy (hyS z hz)
  · rintro ⟨hxy, hnone⟩
    obtain ⟨P, S, rfl⟩ := List.append_of_mem hx
    simp only [List.pairwise_append, List.pairwise_cons] at h
    obtain ⟨-, ⟨hxS, hS⟩, hP⟩ := h
    -- The greater row stands behind the other one, so it is the head of what follows or behind this
    -- head.
    have hyS : y ∈ S := by
      rcases List.mem_append.1 hy with hy | hy
      · exact absurd hxy (lt_asymm (hP y hy x (by simp)))
      · rcases List.mem_cons.1 hy with rfl | hy
        · exact absurd hxy (lt_irrefl _)
        · exact hy
    cases S with
    | nil => simp at hyS
    | cons z S =>
      rcases List.mem_cons.1 hyS with rfl | hyS
      · exact ⟨P, S, by simp⟩
      · exact absurd ((List.pairwise_cons.1 hS).1 y hyS) (hnone z (by simp) (hxS z (by simp)))

/-- A row inserted between the right neighbors keeps the rows increasing. -/
theorem increasing_insertIdx {x : α} {j : Nat} (hL : L.Pairwise (f · < f ·)) (hj : j ≤ L.length)
    (hbefore : ∀ y, j ≠ 0 → L[j - 1]? = some y → f y < f x)
    (hafter : ∀ y, L[j]? = some y → f x < f y) :
    (L.insertIdx j x).Pairwise (f · < f ·) :=
  pairwise_insertIdx (fun _ _ _ => lt_trans) hL hj hbefore hafter

/-- Rows with one inserted increase exactly if it stands between its neighbors. -/
theorem increasing_insertIdx_iff {x : α} {j : Nat} (hL : L.Pairwise (f · < f ·))
    (hj : j ≤ L.length) :
    (L.insertIdx j x).Pairwise (f · < f ·) ↔
      (∀ y, j ≠ 0 → L[j - 1]? = some y → f y < f x) ∧ ∀ y, L[j]? = some y → f x < f y :=
  pairwise_insertIdx_iff (fun _ _ _ => lt_trans) hL hj

end

end Kanban
