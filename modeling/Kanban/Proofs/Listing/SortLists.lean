import Kanban.Proofs.Filter.Words
import Kanban.Proofs.Listing.Slots
import Kanban.Proofs.Success

/-!
# Directions of a sort list

A sort list is made of two lists with commas, and both lose their blank entries before they are
paired.  So the directions go to the fields by rank and not by slot (`SortKey.parse_eq_ok`).  Both
ways give the same keys exactly if each field finds the same direction at its slot and at its rank
(`SortKey.Paired.iff_same`).  Whatever the directions are, this holds exactly if the lists are
aligned: an entry of one and an entry of the other have the same rank exactly if they stand in the
same slot (`SortKey.Aligned.paired`, `SortKey.aligned_of_paired`).  A blank slot in front of the
directions shifts them all (`SortKey.not_paired_blankFirst`).
-/

namespace Kanban

/-! ### Directions and keys -/

/-- The direction that a word gives, in any letter case, or that is taken where there is no word. -/
inductive Direction.IsGivenBy : Direction → Option (List Char) → Prop
  | missing : IsGivenBy .ascending none
  | word {d : Direction} {w : List Char} (h : Text.sameWord d.name.toList w = true) :
      IsGivenBy d (some w)

namespace Direction

variable {d d' : Direction} {word : Option (List Char)} {w : List Char}

theorem name_inj : d.name = d'.name ↔ d = d' := by
  cases d <;> cases d' <;> decide

theorem isGivenBy_none : d.IsGivenBy none ↔ d = .ascending := by
  constructor
  · rintro ⟨⟩
    rfl
  · rintro rfl
    exact .missing

theorem isGivenBy_some : d.IsGivenBy (some w) ↔ String.ofList (Text.lower w) = d.name := by
  have hlower : Text.lower d.name.toList = d.name.toList := by cases d <;> decide
  have hword : Text.sameWord d.name.toList w = true ↔ String.ofList (Text.lower w) = d.name := by
    rw [Text.sameWord, beq_iff_eq, hlower, ← String.toList_inj, String.toList_ofList, eq_comm]
  rw [← hword]
  constructor
  · intro h
    cases h with
    | word h => exact h
  · exact .word

/-- A direction is given by its name, and no other one is. -/
theorem isGivenBy_name : d.IsGivenBy (some d'.name.toList) ↔ d = d' := by
  have hlower : String.ofList (Text.lower d'.name.toList) = d'.name := by cases d' <;> decide
  rw [isGivenBy_some, hlower, name_inj, eq_comm]

theorem IsGivenBy.unique (h : d.IsGivenBy word) (h' : d'.IsGivenBy word) : d = d' := by
  cases word with
  | none => exact (isGivenBy_none.1 h).trans (isGivenBy_none.1 h').symm
  | some w => exact name_inj.1 ((isGivenBy_some.1 h).symm.trans (isGivenBy_some.1 h'))

end Direction

namespace SortKey

/-- The key sorts by the named field, in the direction that the word gives. -/
structure Describes (k : SortKey) (name : List Char) (word : Option (List Char)) : Prop where
  named : Text.sameWord k.field.name.toList name = true
  sortable : k.field.isRelation = false
  directed : k.direction.IsGivenBy word

section

variable {names words : List (List Char)} {name : List Char} {word : Option (List Char)} {f : Field}
  {d : Direction}

theorem readField_eq_ok :
    readField name = .ok f ↔ Text.sameWord f.name.toList name = true ∧ f.isRelation = false := by
  unfold readField
  constructor
  · intro h
    cases hg : Field.ofName? name with
    | none => simp [hg] at h
    | some g =>
      by_cases hrelation : g.isRelation = true
      · simp [hg, hrelation] at h
      · obtain rfl : g = f := by simpa [hg, hrelation] using h
        have hname : Text.sameWord g.name.toList name = true := by
          unfold Field.ofName? at hg
          simpa using List.find?_some hg
        exact ⟨hname, Bool.eq_false_iff.2 hrelation⟩
  · rintro ⟨hname, hrelation⟩
    simp [Filter.ofName?_of_sameWord hname, hrelation]

theorem readDirection_eq_ok : readDirection word = .ok d ↔ d.IsGivenBy word := by
  cases word with
  | none =>
    rw [Direction.isGivenBy_none, readDirection, Except.ok.injEq, eq_comm]
  | some w =>
    rw [Direction.isGivenBy_some, readDirection]
    by_cases hasc : String.ofList (Text.lower w) = "asc"
    · cases d <;> simp [hasc, Direction.name]
    · by_cases hdesc : String.ofList (Text.lower w) = "desc"
      · cases d <;> simp [hdesc, Direction.name]
      · cases d <;> simp [hasc, hdesc, Direction.name]

/-- The first name and the first word make the first key. -/
theorem pair_cons_eq_ok {k : SortKey} {keys : List SortKey} :
    pair (name :: names) words = .ok (k :: keys) ↔
      k.Describes name words[0]? ∧ pair names words.tail = .ok keys := by
  simp only [pair, bind_eq_ok, readField_eq_ok, readDirection_eq_ok, List.head?_eq_getElem?]
  constructor
  · rintro ⟨f, ⟨hname, hf⟩, d, hd, more, hmore, h⟩
    obtain ⟨rfl, rfl⟩ := List.cons.inj (Except.ok.inj h)
    exact ⟨⟨hname, hf, hd⟩, hmore⟩
  · rintro ⟨⟨hname, hf, hd⟩, hmore⟩
    exact ⟨_, ⟨hname, hf⟩, _, hd, _, hmore, rfl⟩

/-- The words go to the names in order. -/
theorem pair_eq_ok {keys : List SortKey} :
    pair names words = .ok keys ↔
      keys.length = names.length ∧
        ∀ (r : Nat) (name : List Char), names[r]? = some name →
          ∃ k : SortKey, keys[r]? = some k ∧ k.Describes name words[r]? := by
  induction names generalizing words keys with
  | nil => simp [pair, eq_comm]
  | cons name names ih =>
    cases keys with
    | nil => simp [pair, bind_eq_ok]
    | cons k keys =>
      -- the pair of rank zero, and then the others, whose ranks are one less in the remaining lists
      have hstep : (∀ (r : Nat) (n : List Char), (name :: names)[r]? = some n →
          ∃ k' : SortKey, (k :: keys)[r]? = some k' ∧ k'.Describes n words[r]?) ↔
          k.Describes name words[0]? ∧ ∀ (r : Nat) (n : List Char), names[r]? = some n →
            ∃ k' : SortKey, keys[r]? = some k' ∧ k'.Describes n words.tail[r]? := by
        rw [← Nat.and_forall_add_one]
        simp [List.getElem?_tail]
      rw [pair_cons_eq_ok, ih, hstep, List.length_cons, List.length_cons, Nat.add_right_cancel_iff]
      exact and_left_comm

/-- Names of fields to sort by and words for directions always make a list. -/
theorem exists_pair (hnames : ∀ name ∈ names, ∃ f, readField name = .ok f)
    (hwords : ∀ w ∈ words, ∃ d, readDirection (some w) = .ok d) :
    ∃ keys, pair names words = .ok keys := by
  induction names generalizing words with
  | nil => exact ⟨[], rfl⟩
  | cons name names ih =>
    obtain ⟨⟨f, hf⟩, hnames⟩ := List.forall_mem_cons.1 hnames
    obtain ⟨d, hd⟩ : ∃ d, readDirection words.head? = .ok d := by
      cases words with
      | nil => exact ⟨.ascending, rfl⟩
      | cons w words => exact hwords w List.mem_cons_self
    obtain ⟨keys, hkeys⟩ := ih hnames fun w hw => hwords w (List.mem_of_mem_tail hw)
    exact ⟨⟨f, d⟩ :: keys, bind_eq_ok.2 ⟨f, hf,
      bind_eq_ok.2 ⟨d, hd, bind_eq_ok.2 ⟨keys, hkeys, rfl⟩⟩⟩⟩

end

/-! ### Pairing by rank -/

/-- The keys are those of the entries of a list, as many and in their order, each in the direction
that the word for its slot gives. -/
structure Paired (fields : String) (keys : List SortKey)
    (word : Nat → Option (List Char)) : Prop where
  length : keys.length = rank fields (slots fields).length
  describes : ∀ i name, entryAt? fields i = some name →
    ∃ k : SortKey, keys[rank fields i]? = some k ∧ k.Describes name (word i)

section

variable {fields directions list : String} {keys : List SortKey} {d : Direction} {i j r : Nat}

/-- A field gets the direction of its rank. -/
theorem parse_eq_ok :
    parse fields directions = .ok keys ↔
      Paired fields keys fun i => (entries directions)[rank fields i]? := by
  rw [parse, pair_eq_ok, length_entries]
  constructor
  · rintro ⟨hlength, h⟩
    exact ⟨hlength, fun i name hi => h _ name (getElem?_entries_eq_some.2 ⟨i, hi, rfl⟩)⟩
  · rintro ⟨hlength, h⟩
    refine ⟨hlength, fun r name hr => ?_⟩
    obtain ⟨i, hi, rfl⟩ := getElem?_entries_eq_some.1 hr
    exact h i name hi

/-- The same keys come of other words exactly if these give the same directions. -/
theorem Paired.iff_same {word word' : Nat → Option (List Char)} (h : Paired fields keys word) :
    Paired fields keys word' ↔ ∀ i, (entryAt? fields i).isSome = true →
      ∃ d : Direction, d.IsGivenBy (word i) ∧ d.IsGivenBy (word' i) := by
  constructor
  · intro h' i hi
    obtain ⟨name, hname⟩ := Option.isSome_iff_exists.1 hi
    obtain ⟨k, hk, hdescribes⟩ := h.describes i name hname
    obtain ⟨k', hk', hdescribes'⟩ := h'.describes i name hname
    obtain rfl : k = k' := Option.some.inj (hk.symm.trans hk')
    exact ⟨k.direction, hdescribes.directed, hdescribes'.directed⟩
  · intro hsame
    refine ⟨h.length, fun i name hname => ?_⟩
    obtain ⟨k, hk, hnamed, hsortable, hdirected⟩ := h.describes i name hname
    obtain ⟨d, hd, hd'⟩ := hsame i (Option.isSome_iff_exists.2 ⟨name, hname⟩)
    obtain rfl : k.direction = d := hdirected.unique hd
    exact ⟨k, hk, hnamed, hsortable, hd'⟩

/-! ### Blank slots -/

/-- An entry of one list and an entry of the other have the same rank exactly if they stand in the
same slot. -/
def Aligned (fields directions : String) : Prop :=
  ∀ i j, (entryAt? fields i).isSome = true → (entryAt? directions j).isSome = true →
    (rank directions j = rank fields i ↔ j = i)

theorem Aligned.getElem?_entries (h : Aligned fields directions)
    (hi : (entryAt? fields i).isSome = true) :
    (entries directions)[rank fields i]? = entryAt? directions i := by
  refine Option.ext fun word => getElem?_entries_eq_some.trans ⟨?_, fun hword => ?_⟩
  · rintro ⟨j, hj, hrank⟩
    obtain rfl := (h i j hi (Option.isSome_iff_exists.2 ⟨word, hj⟩)).1 hrank
    exact hj
  · exact ⟨i, hword, (h i i hi (Option.isSome_iff_exists.2 ⟨word, hword⟩)).2 rfl⟩

/-- Aligned lists are paired by the slot. -/
theorem Aligned.paired (h : Aligned fields directions)
    (hkeys : parse fields directions = .ok keys) :
    Paired fields keys (entryAt? directions) := by
  obtain ⟨hlength, hdescribes⟩ := parse_eq_ok.1 hkeys
  refine ⟨hlength, fun i name hname => ?_⟩
  rw [← h.getElem?_entries (Option.isSome_iff_exists.2 ⟨name, hname⟩)]
  exact hdescribes i name hname

theorem Aligned.of_sameBlanks {words : String} (h : Aligned fields directions)
    (hblanks : SameBlanks words directions) :
    Aligned fields words := by
  intro i j hi hj
  rw [hblanks.rank_eq]
  exact h i j hi (hblanks j ▸ hj)

/-! ### Other directions in the same slots -/

/-- A list of directions that is blank in the slots in which another list is. -/
def written (list : String) (ds : Nat → Direction) : String :=
  String.ofList ([','].intercalate ((slots list).mapIdx fun i word => if word.isEmpty then []
    else (ds i).name.toList))

section

variable {ds : Nat → Direction}

theorem slots_written (list : String) (ds : Nat → Direction) :
    slots (written list ds) = (slots list).mapIdx fun i word => if word.isEmpty then []
      else (ds i).name.toList := by
  have hname : ∀ d : Direction, ',' ∉ d.name.toList ∧ Text.trim d.name.toList = d.name.toList := by
    intro d
    cases d <;> decide
  have hword :
      ∀ word ∈ (slots list).mapIdx fun i word => if word.isEmpty then [] else (ds i).name.toList,
        ',' ∉ word ∧ Text.trim word = word := by
    intro word hword
    obtain ⟨i, hi, rfl⟩ := List.mem_mapIdx.1 hword
    by_cases hempty : (slots list)[i].isEmpty = true
    · rw [if_pos hempty]
      exact ⟨List.not_mem_nil, rfl⟩
    · rw [if_neg hempty]
      exact hname (ds i)
  rw [slots, written, String.toList_ofList, List.splitOn_intercalate]
  · exact (List.map_congr_left fun word h => (hword word h).2).trans (List.map_id _)
  · exact fun word h => (hword word h).1
  · exact fun h => slots_ne_nil list (List.mapIdx_eq_nil_iff.1 h)

theorem entryAt?_written (list : String) (ds : Nat → Direction) (i : Nat) :
    entryAt? (written list ds) i = (entryAt? list i).map fun _ => (ds i).name.toList := by
  have hname : ∀ d : Direction, d.name ≠ "" := by
    intro d
    cases d <;> decide
  rw [entryAt?, entryAt?, slots_written, List.getElem?_mapIdx]
  cases (slots list)[i]? with
  | none => rfl
  | some word =>
    cases word with
    | nil => rfl
    | cons c word => simp [Option.filter, hname]

theorem sameBlanks_written (list : String) (ds : Nat → Direction) :
    SameBlanks (written list ds) list := by
  intro i
  rw [entryAt?_written, Option.isSome_map]

/-- A written direction is the one given in its slot; a blank slot gives the ascending one. -/
theorem isGivenBy_written :
    d.IsGivenBy (entryAt? (written list ds) i) ↔
      d = if (entryAt? list i).isSome then ds i else .ascending := by
  rw [entryAt?_written]
  cases hi : entryAt? list i with
  | none => exact Direction.isGivenBy_none
  | some word => exact Direction.isGivenBy_name

/-- Descending in one slot, ascending in all others. -/
def onlyAt (j i : Nat) : Direction := if i = j then .descending else .ascending

theorem descending_iff_slot (hj : (entryAt? list j).isSome = true)
    (h : d.IsGivenBy (entryAt? (written list (onlyAt j)) i)) :
    d = .descending ↔ i = j := by
  rw [isGivenBy_written] at h
  by_cases hij : i = j
  · simp [h, onlyAt, hij, hj]
  · simp [h, onlyAt, hij]

theorem descending_iff_rank (hj : (entryAt? list j).isSome = true)
    (h : d.IsGivenBy (entries (written list (onlyAt j)))[r]?) :
    d = .descending ↔ rank list j = r := by
  have hblanks := sameBlanks_written list (onlyAt j)
  cases hr : (entries (written list (onlyAt j)))[r]? with
  | none =>
    have hne : rank list j ≠ r := by
      rintro rfl
      obtain ⟨word, hword⟩ := Option.isSome_iff_exists.1 ((hblanks j).trans hj)
      rw [getElem?_entries_eq_some.2 ⟨j, hword, hblanks.rank_eq j⟩] at hr
      cases hr
    rw [hr, Direction.isGivenBy_none] at h
    simp [h, hne]
  | some word =>
    obtain ⟨i, hi, rfl⟩ := getElem?_entries_eq_some.1 hr
    have hsome : (entryAt? list i).isSome = true := by rw [← hblanks i, hi, Option.isSome_some]
    rw [hr, ← hi] at h
    rw [descending_iff_slot hj h, hblanks.rank_eq, rank_inj hj hsome, eq_comm]

end

/-- Written directions can be read for any list of fields that can. -/
theorem exists_parse_written (hkeys : parse fields directions = .ok keys) (list : String)
    (ds : Nat → Direction) :
    ∃ keys, parse fields (written list ds) = .ok keys := by
  refine exists_pair (fun name hname => ?_) (fun word hword => ?_)
  · obtain ⟨r, hr⟩ := List.mem_iff_getElem?.1 hname
    obtain ⟨k, -, hnamed, hsortable, -⟩ := (pair_eq_ok.1 hkeys).2 r name hr
    exact ⟨k.field, readField_eq_ok.2 ⟨hnamed, hsortable⟩⟩
  · obtain ⟨r, hr⟩ := List.mem_iff_getElem?.1 hword
    obtain ⟨i, hi, -⟩ := getElem?_entries_eq_some.1 hr
    rw [entryAt?_written] at hi
    obtain ⟨-, -, rfl⟩ := Option.map_eq_some_iff.1 hi
    exact ⟨ds i, readDirection_eq_ok.2 (Direction.isGivenBy_name.2 rfl)⟩

/-- Only aligned lists are paired by the slot whatever the directions are. -/
theorem aligned_of_paired (hkeys : parse fields directions = .ok keys)
    (h : ∀ words keys', SameBlanks words directions → parse fields words = .ok keys' →
      Paired fields keys' (entryAt? words)) :
    Aligned fields directions := by
  intro i j hi hj
  -- one descending direction tells its slot from all others, and its rank as well
  obtain ⟨keys', hkeys'⟩ := exists_parse_written hkeys directions (onlyAt j)
  have hslot := h _ keys' (sameBlanks_written directions _) hkeys'
  obtain ⟨d, hd, hd'⟩ := (parse_eq_ok.1 hkeys').iff_same.1 hslot i hi
  rw [← descending_iff_rank hj hd, descending_iff_slot hj hd', eq_comm]

end

/-- Two lists are read exactly as the keys that give each field the direction of its rank.  These
give each field the direction of its slot as well exactly if no field finds another direction there,
and they do so for all directions in the same slots exactly if the lists are aligned. -/
theorem directions_exact (fields directions : String) (keys : List SortKey) :
    (parse fields directions = .ok keys ↔
      Paired fields keys fun i => (entries directions)[rank fields i]?) ∧
    (parse fields directions = .ok keys →
      (Paired fields keys (entryAt? directions) ↔ ∀ i, (entryAt? fields i).isSome = true →
        ∃ d : Direction, d.IsGivenBy (entries directions)[rank fields i]? ∧
        d.IsGivenBy (entryAt? directions i)) ∧
      ((∀ words keys', SameBlanks words directions → parse fields words = .ok keys' →
        Paired fields keys' (entryAt? words)) ↔ Aligned fields directions)) := by
  refine ⟨parse_eq_ok, fun hkeys => ⟨(parse_eq_ok.1 hkeys).iff_same, aligned_of_paired hkeys, ?_⟩⟩
  intro h words keys' hblanks hkeys'
  exact (h.of_sameBlanks hblanks).paired hkeys'

/-- Two lists with a blank second slot, the directions in capitals and one short. -/
theorem directions_exact_sparse :
    parse " Priority,,ID , position" "DESC, ,asc" =
        .ok [⟨.priority, .descending⟩, ⟨.id, .ascending⟩, ⟨.position, .ascending⟩] ∧
      Paired " Priority,,ID , position" [⟨.priority, .descending⟩, ⟨.id, .ascending⟩,
        ⟨.position, .ascending⟩]
        (entryAt? "DESC, ,asc") := by
  have hkeys : parse " Priority,,ID , position" "DESC, ,asc" =
      .ok [⟨.priority, .descending⟩, ⟨.id, .ascending⟩, ⟨.position, .ascending⟩] := by rfl
  have hslots : ∀ i < 4, ∀ j < 3, (entryAt? " Priority,,ID , position" i).isSome = true →
      (entryAt? "DESC, ,asc" j).isSome = true →
      (rank "DESC, ,asc" j = rank " Priority,,ID , position" i ↔ j = i) := by decide +kernel
  have haligned : Aligned " Priority,,ID , position" "DESC, ,asc" :=
    fun i j hi hj => hslots i (lt_length_of_entryAt? hi) j (lt_length_of_entryAt? hj) hi hj
  have hpaired := ((directions_exact _ _ _).2 hkeys).2.2 haligned
  exact ⟨hkeys, hpaired _ _ (fun _ => rfl) hkeys⟩

/-- A blank slot in front of the directions gives the first field the direction in the slot of the
second. -/
theorem not_paired_blankFirst :
    parse "priority,id" ",desc" = .ok [⟨.priority, .descending⟩, ⟨.id, .ascending⟩] ∧
      ¬Paired "priority,id" [⟨.priority, .descending⟩, ⟨.id, .ascending⟩] (entryAt? ",desc") := by
  refine ⟨by rfl, fun h => ?_⟩
  obtain ⟨k, hk, hdescribes⟩ := h.describes 0 "priority".toList (by decide +kernel)
  have hblank : entryAt? ",desc" 0 = none := by decide +kernel
  have hrank : rank "priority,id" 0 = 0 := rfl
  rw [hrank] at hk
  obtain rfl := Option.some.inj hk
  have hgiven : Direction.descending.IsGivenBy (entryAt? ",desc" 0) := hdescribes.directed
  rw [hblank] at hgiven
  cases hgiven

end SortKey

end Kanban
