import Mathlib.Data.List.Nodup
import Mathlib.Data.List.Perm.Subperm
import Kanban.Store.Basic

/-!
# Tables keyed by ids

A table is a list of rows whose ids were given out one after the other (`Serial`).  In such a table
an id finds the one row that has it (`find?_key_eq_some`), and putting a row in the place of another
one changes no id (`map_key_replace`).
-/

namespace Kanban

/-- Ids that were given out one after the other; the last one so far is `last`. -/
structure Serial (last : Nat) (ids : List Int) : Prop where
  nodup : ids.Nodup
  pos : ∀ i ∈ ids, 0 < i
  le : ∀ i ∈ ids, i ≤ last

namespace Serial

variable {last : Nat} {ids ids' : List Int}

theorem nil : Serial 0 [] := ⟨List.nodup_nil, by simp, by simp⟩

/-- The next id is a new one. -/
theorem next_not_mem (h : Serial last ids) : (last + 1 : Int) ∉ ids := by
  intro hm
  have := h.le _ hm
  omega

theorem append_next (h : Serial last ids) : Serial (last + 1) (ids ++ [(last + 1 : Int)]) where
  nodup := by
    rw [List.nodup_append]
    refine ⟨h.nodup, List.nodup_singleton _, ?_⟩
    intro i hi j hj
    rw [List.mem_singleton] at hj
    rintro rfl
    exact h.next_not_mem (hj ▸ hi)
  pos i hi := by
    rcases List.mem_append.1 hi with hi | hi
    · exact h.pos i hi
    · rw [List.mem_singleton] at hi; omega
  le i hi := by
    rcases List.mem_append.1 hi with hi | hi
    · have := h.le i hi; push_cast; omega
    · rw [List.mem_singleton] at hi; push_cast; omega

/-- There are no more ids than were given out. -/
theorem length_le (h : Serial last ids) : ids.length ≤ last := by
  have hsub : ids ⊆ (List.range last).map fun i => ((i + 1 : Nat) : Int) := by
    intro i hi
    have hpos := h.pos i hi
    have hle := h.le i hi
    exact List.mem_map.2 ⟨i.toNat - 1, List.mem_range.2 (by omega), by omega⟩
  have hlength := (List.subperm_of_subset h.nodup hsub).length_le
  rwa [List.length_map, List.length_range] at hlength

theorem sublist (h : Serial last ids) (hs : ids'.Sublist ids) : Serial last ids' where
  nodup := h.nodup.sublist hs
  pos i hi := h.pos i (hs.subset hi)
  le i hi := h.le i (hs.subset hi)

end Serial

section

variable {α : Type} {key : α → Int} {rows : List α} {i : Int} {x y : α}

theorem eq_of_key_eq (h : (rows.map key).Nodup) (hx : x ∈ rows) (hy : y ∈ rows)
    (hk : key x = key y) : x = y :=
  List.inj_on_of_nodup_map h hx hy hk

/-- Rows of a table are known by their keys. -/
theorem eq_of_map_key_eq {L L' : List α} (h : (rows.map key).Nodup) (hL : ∀ x ∈ L, x ∈ rows)
    (hL' : ∀ x ∈ L', x ∈ rows) (hmap : L.map key = L'.map key) : L = L' := by
  induction L generalizing L' with
  | nil => exact (List.map_eq_nil_iff.1 hmap.symm).symm
  | cons x L ih =>
    cases L' with
    | nil => cases hmap
    | cons y L' =>
      rw [List.forall_mem_cons] at hL hL'
      rw [List.map_cons, List.map_cons, List.cons.injEq] at hmap
      rw [eq_of_key_eq h hL.1 hL'.1 hmap.1, ih hL.2 hL'.2 hmap.2]

/-- Rows of a table stand next to each other where their keys do. -/
theorem pair_infix_map_iff (h : (rows.map key).Nodup) (hx : x ∈ rows) (hy : y ∈ rows) :
    [key x, key y] <:+: rows.map key ↔ [x, y] <:+: rows := by
  constructor
  · intro hpair
    obtain ⟨L, hL, hmap⟩ := List.infix_map_iff.1 hpair
    have hxy : ∀ z ∈ [x, y], z ∈ rows := by simp [hx, hy]
    rwa [eq_of_map_key_eq (L := [x, y]) h hxy (fun z hz => hL.subset hz) hmap]
  · intro hpair
    exact hpair.map key

theorem find?_key_eq_some (h : (rows.map key).Nodup) :
    rows.find? (key · == i) = some x ↔ x ∈ rows ∧ key x = i := by
  constructor
  · intro hf
    exact ⟨List.mem_of_find?_eq_some hf, by simpa using List.find?_some hf⟩
  · rintro ⟨hx, rfl⟩
    cases hf : rows.find? (key · == key x) with
    | none =>
      rw [List.find?_eq_none] at hf
      exact absurd (beq_self_eq_true _) (hf x hx)
    | some z =>
      have hz : key z = key x := by simpa using List.find?_some hf
      rw [eq_of_key_eq h (List.mem_of_find?_eq_some hf) hx hz]

/-- Every row has a partner among the rows that are paired with them. -/
theorem exists_of_forall₂ {β : Type} {R : α → β → Prop} {partners : List β}
    (h : List.Forall₂ R rows partners) (hx : x ∈ rows) : ∃ y ∈ partners, R x y := by
  induction h with
  | nil => cases hx
  | cons hxy _ ih =>
    rcases List.mem_cons.1 hx with rfl | hx
    · exact ⟨_, List.mem_cons_self .., hxy⟩
    · obtain ⟨y, hy, hR⟩ := ih hx
      exact ⟨y, List.mem_cons_of_mem _ hy, hR⟩

/-- Putting a row in the place of the one with its id changes no id. -/
theorem map_key_replace (hy : key y = i) (rows : List α) :
    (rows.map fun x => if key x == i then y else x).map key = rows.map key := by
  rw [List.map_map]
  apply List.map_congr_left
  intro x _
  simp only [Function.comp_apply, beq_iff_eq]
  split
  · rename_i hx; rw [hx, hy]
  · rfl

/-- A change of rows that are not selected does not show in the selection. -/
theorem filter_map_of_fixed {f : α → α} {q : α → Bool} (hq : ∀ x ∈ rows, q (f x) = q x)
    (hf : ∀ x ∈ rows, q x = true → f x = x) : (rows.map f).filter q = rows.filter q := by
  rw [List.filter_map, List.filter_congr (p := q ∘ f) (q := q) hq]
  refine (List.map_congr_left fun x hx => ?_).trans (List.map_id _)
  exact hf x (List.mem_filter.1 hx).1 (List.mem_filter.1 hx).2

/-- A new row that is not selected does not show in the selection. -/
theorem filter_append_of_not {q : α → Bool} (hq : q x = false) (rows : List α) :
    (rows ++ [x]).filter q = rows.filter q := by
  rw [List.filter_append, List.filter_singleton, hq]
  exact List.append_nil _

/-- Removing rows that are not selected does not show in the selection. -/
theorem filter_filter_of_kept {q kept : α → Bool} (h : ∀ x ∈ rows, q x = true → kept x = true) :
    (rows.filter kept).filter q = rows.filter q := by
  rw [List.filter_filter]
  refine List.filter_congr fun x hx => ?_
  cases hq : q x with
  | false => rfl
  | true => rw [h x hx hq, Bool.and_self]

/-- A row is found by two conditions if one of them finds it among the rows that meet the other
one. -/
theorem find?_filter_and (q r : α → Bool) (rows : List α) :
    (rows.find? fun x => q x && r x) = (rows.filter r).find? q := by
  rw [List.find?_filter]
  congr 1
  funext x
  cases q x <;> cases r x <;> rfl

/-- The selected rows are one of them and the others. -/
theorem filter_perm_cons {q : α → Bool} (h : (rows.map key).Nodup) (hx : x ∈ rows)
    (hq : q x = true) :
    (rows.filter q).Perm (x :: rows.filter fun r => q r && key r != key x) := by
  have hrows : rows.Nodup := h.of_map
  refine (List.perm_ext_iff_of_nodup (hrows.filter _) ?_).2 fun r => ?_
  · rw [List.nodup_cons]
    exact ⟨by simp, hrows.filter _⟩
  · simp only [List.mem_filter, List.mem_cons, Bool.and_eq_true, bne_iff_ne]
    constructor
    · rintro ⟨hr, hqr⟩
      by_cases hk : key r = key x
      · exact .inl (eq_of_key_eq h hr hx hk)
      · exact .inr ⟨hr, hqr, hk⟩
    · rintro (rfl | ⟨hr, hqr, -⟩)
      · exact ⟨hx, hq⟩
      · exact ⟨hr, hqr⟩

/-- The rows other than the one at an index are the rows with other keys. -/
theorem eraseIdx_eq_filter (h : (rows.map key).Nodup) {n : Nat} (hx : rows[n]? = some x) :
    rows.eraseIdx n = rows.filter (key · != key x) := by
  induction rows generalizing n with
  | nil => simp at hx
  | cons y rows ih =>
    rw [List.map_cons, List.nodup_cons] at h
    cases n with
    | zero =>
      obtain rfl : y = x := by simpa using hx
      have hself : rows.filter (key · != key y) = rows := by
        rw [List.filter_eq_self]
        intro z hz
        rw [bne_iff_ne]
        exact fun heq => h.1 (heq ▸ List.mem_map_of_mem hz)
      simp [hself]
    | succ n =>
      rw [List.getElem?_cons_succ] at hx
      have hne : key y ≠ key x :=
        fun heq => h.1 (heq ▸ List.mem_map_of_mem (List.mem_of_getElem? hx))
      rw [List.eraseIdx_cons_succ, List.filter_cons_of_pos (by simpa using hne), ih h.2 hx]

theorem mem_replace :
    x ∈ rows.map (fun x => if key x == i then y else x) ↔
      (x ∈ rows ∧ key x ≠ i) ∨ (x = y ∧ ∃ z ∈ rows, key z = i) := by
  simp only [List.mem_map, beq_iff_eq]
  constructor
  · rintro ⟨z, hz, h⟩
    split at h
    · rename_i hk; exact .inr ⟨h.symm, z, hz, hk⟩
    · rename_i hk; subst h; exact .inl ⟨hz, hk⟩
  · rintro (⟨hx, hk⟩ | ⟨rfl, z, hz, hk⟩)
    · exact ⟨x, hx, by simp [hk]⟩
    · exact ⟨z, hz, by simp [hk]⟩

end

/-! ### Values listed by id -/

section

variable {α β : Type} {key : α → Int} {f : β → α → α} {values : List (Int × β)}

/-- The row changed by the value that is listed for its id, if there is one. -/
def changed (key : α → Int) (f : β → α → α) (values : List (Int × β)) (row : α) : α :=
  match values.lookup (key row) with
  | some v => f v row
  | none => row

theorem changed_eq_self {row : α} (h : key row ∉ values.map Prod.fst) :
    changed key f values row = row := by
  have hnone : values.lookup (key row) = none := by
    rw [List.lookup_eq_none_iff]
    intro k hk
    rw [bne_iff_ne]
    rintro heq
    exact h (List.mem_map.2 ⟨k, hk, heq.symm⟩)
  simp [changed, hnone]

theorem changed_of_lookup {row : α} {v : β} (h : values.lookup (key row) = some v) :
    changed key f values row = f v row := by
  simp [changed, h]

/-- Changing one row and then those listed behind it changes all listed rows. -/
theorem changed_cons (hf : ∀ v row, key (f v row) = key row) {id : Int}
    (hid : id ∉ values.map Prod.fst) (v : β) (row : α) :
    changed key f values (if key row == id then f v row else row) =
      changed key f ((id, v) :: values) row := by
  by_cases hrow : key row = id
  · -- No later value is listed for the same id.
    subst hrow
    rw [if_pos (beq_self_eq_true _), changed_eq_self (by rwa [hf])]
    exact (changed_of_lookup (by simp)).symm
  · have hbeq : (key row == id) = false := by simpa using hrow
    simp [hbeq, changed, List.lookup_cons]

end

theorem mem_of_lookup {β : Type} {pairs : List (Int × β)} {k : Int} {x : β}
    (h : pairs.lookup k = some x) :
    (k, x) ∈ pairs := by
  obtain ⟨l, l', rfl, -⟩ := List.lookup_eq_some_iff.1 h
  simp

end Kanban
