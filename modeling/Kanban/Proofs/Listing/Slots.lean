import Kanban.Listing.Sort

/-!
# Slots of a list with commas

The entries of a list are what stands in its slots, the blank ones left out.  So an entry has a
slot, between two commas, and a rank, the number of entries in front of it.  The entry of a rank is
the one in the slot with this rank (`SortKey.getElem?_entries_eq_some`), different entries have
different ranks (`SortKey.rank_inj`), and the ranks depend on nothing but the slots that are blank
(`SortKey.SameBlanks.rank_eq`).
-/

namespace Kanban

/-- The parts of a text are those of the library's `List.splitOn`. -/
theorem Text.splitAt_eq_splitOn (separator : Char) (cs : List Char) :
    Text.splitAt separator cs = cs.splitOn separator := by
  induction cs with
  | nil => rfl
  | cons c cs ih =>
    rw [Text.splitAt, ih]
    unfold List.splitOn
    rw [List.splitOnP_cons_eq_if_modifyHead]
    by_cases hc : c = separator
    · simp [hc]
    · obtain ⟨part, parts, hparts⟩ :=
        List.exists_cons_of_ne_nil (List.splitOnP_ne_nil (· == separator) cs)
      simp [hc, hparts]

/-! ### Ranks in a list -/

section

variable {α : Type} {p : α → Bool} {xs : List α} {a : α} {i r : Nat}

/-- An element that is kept has the rank given by those kept in front of it. -/
theorem getElem?_filter_countP (h : xs[i]? = some a) (ha : p a = true) :
    (xs.filter p)[(xs.take i).countP p]? = some a := by
  obtain ⟨hi, rfl⟩ := List.getElem?_eq_some_iff.1 h
  have hsplit : xs.filter p = (xs.take i).filter p ++ xs[i] :: (xs.drop (i + 1)).filter p := by
    calc
      xs.filter p = (xs.take i ++ xs.drop i).filter p := by rw [List.take_append_drop]
      _ = _ := by rw [List.drop_eq_getElem_cons hi, List.filter_append, List.filter_cons_of_pos ha]
  rw [hsplit, List.countP_eq_length_filter,
    List.getElem?_append_right (Nat.le_refl _), Nat.sub_self]
  rfl

/-- Every rank among the kept elements is that of one of them. -/
theorem exists_of_getElem?_filter (h : (xs.filter p)[r]? = some a) :
    ∃ i, xs[i]? = some a ∧ p a = true ∧ (xs.take i).countP p = r := by
  induction xs generalizing r with
  | nil => simp at h
  | cons x xs ih =>
    by_cases hx : p x = true
    · rw [List.filter_cons_of_pos hx] at h
      cases r with
      | zero =>
        obtain rfl : x = a := by simpa using h
        exact ⟨0, rfl, hx, rfl⟩
      | succ r =>
        obtain ⟨i, hi, ha, hr⟩ := ih (r := r) (by simpa using h)
        exact ⟨i + 1, by simpa using hi, ha, by simp [hx, hr]⟩
    · rw [List.filter_cons_of_neg hx] at h
      obtain ⟨i, hi, ha, hr⟩ := ih h
      exact ⟨i + 1, by simpa using hi, ha, by simp [hx, hr]⟩

end

namespace SortKey

/-! ### Slots and entries -/

/-- What stands in the slots of a list with commas, without the white space around it. -/
def slots (list : String) : List (List Char) := (list.toList.splitOn ',').map Text.trim

/-- The entry in a slot; there is none in a blank slot and behind the last one. -/
def entryAt? (list : String) (i : Nat) : Option (List Char) := (slots list)[i]?.filter (!·.isEmpty)

/-- The number of entries in front of a slot. -/
def rank (list : String) (i : Nat) : Nat := ((slots list).take i).countP (!·.isEmpty)

section

variable {list : String} {word : List Char} {i j r : Nat}

theorem entries_eq (list : String) : entries list = (slots list).filter (!·.isEmpty) := by
  rw [entries, Text.splitAt_eq_splitOn]
  rfl

theorem entryAt?_eq_some :
    entryAt? list i = some word ↔ (slots list)[i]? = some word ∧ (!word.isEmpty) = true :=
  Option.filter_eq_some_iff

theorem slots_ne_nil (list : String) : slots list ≠ [] :=
  fun h => List.splitOnP_ne_nil (· == ',') list.toList (List.map_eq_nil_iff.1 h)

theorem lt_length_of_entryAt? (h : (entryAt? list i).isSome = true) : i < (slots list).length := by
  obtain ⟨word, hword⟩ := Option.isSome_iff_exists.1 h
  exact (List.getElem?_eq_some_iff.1 (entryAt?_eq_some.1 hword).1).1

/-- The entries in their order are those of the slots, by rank. -/
theorem getElem?_entries_eq_some :
    (entries list)[r]? = some word ↔ ∃ j, entryAt? list j = some word ∧ rank list j = r := by
  rw [entries_eq]
  constructor
  · intro h
    obtain ⟨j, hj, hword, hr⟩ := exists_of_getElem?_filter h
    exact ⟨j, entryAt?_eq_some.2 ⟨hj, hword⟩, hr⟩
  · rintro ⟨j, hj, rfl⟩
    obtain ⟨hslot, hword⟩ := entryAt?_eq_some.1 hj
    exact getElem?_filter_countP hslot hword

theorem length_entries (list : String) : (entries list).length = rank list (slots list).length := by
  rw [entries_eq, rank, List.take_length, List.countP_eq_length_filter]

theorem rank_succ (list : String) (i : Nat) :
    rank list (i + 1) = rank list i + if (entryAt? list i).isSome then 1 else 0 := by
  rw [rank, List.take_add_one, List.countP_append, entryAt?, Option.isSome_filter]
  congr 1
  cases (slots list)[i]? with
  | none => rfl
  | some word => simp [List.countP_cons]

theorem rank_mono (h : i ≤ j) : rank list i ≤ rank list j :=
  (List.take_prefix_take_left h).sublist.countP_le

theorem rank_lt_rank (hi : (entryAt? list i).isSome = true) (h : i < j) :
    rank list i < rank list j := by
  have hsucc : rank list (i + 1) = rank list i + 1 := by rw [rank_succ, if_pos hi]
  have hle : rank list (i + 1) ≤ rank list j := rank_mono h
  omega

/-- Two entries of one list have different ranks. -/
theorem rank_inj (hi : (entryAt? list i).isSome = true) (hj : (entryAt? list j).isSome = true) :
    rank list i = rank list j ↔ i = j := by
  constructor
  · intro h
    rcases Nat.lt_trichotomy i j with hlt | heq | hlt
    · have := rank_lt_rank hi hlt
      omega
    · exact heq
    · have := rank_lt_rank hj hlt
      omega
  · exact congrArg (rank list)

end

/-- Two lists are blank in the same slots. -/
def SameBlanks (list list' : String) : Prop :=
  ∀ i, (entryAt? list i).isSome = (entryAt? list' i).isSome

theorem SameBlanks.rank_eq {list list' : String} (h : SameBlanks list list') (i : Nat) :
    rank list i = rank list' i := by
  induction i with
  | zero => rfl
  | succ i ih => rw [rank_succ, rank_succ, ih, h i]

end SortKey

end Kanban
