import Mathlib.Data.List.TakeWhile
import Kanban.Proofs.Filter.Writing

/-!
# Names and comparators in any letter case

Only letters change with the case, so a word in any case consists of characters of names, and a
comparator that is no word has one form (`Filter.eq_of_sameWord`).  A name reads as its field up to
the comparator (`Filter.ofName?_of_sameWord`, `Filter.name_append`), and a comparator reads as
itself up to what it compares with (`Filter.comparator_written`).
-/

namespace Kanban.Filter

/-! ### White space -/

theorem trimStart_blanks {a : List Char} (ha : Blanks a) (x : List Char) :
    Text.trimStart (a ++ x) = Text.trimStart x :=
  List.dropWhile_append_of_pos ha

theorem trimStart_cons {c : Char} (hc : Text.isBlank c = false) (cs : List Char) :
    Text.trimStart (c :: cs) = c :: cs := by
  simp [Text.trimStart, hc]

theorem eq_blanks_append (x : List Char) : ∃ b, Blanks b ∧ x = b ++ Text.trimStart x :=
  ⟨x.takeWhile Text.isBlank, fun _ hc => List.mem_takeWhile_imp hc,
    (List.takeWhile_append_dropWhile ..).symm⟩

theorem trimStart_trimStart (x : List Char) :
    Text.trimStart (Text.trimStart x) = Text.trimStart x := by
  obtain ⟨b, hb, hx⟩ := eq_blanks_append x
  conv_rhs => rw [hx, trimStart_blanks hb]

/-! ### Letter case -/

section

variable {c : Char}

theorem isUpper_iff : c.isUpper = true ↔ 'A'.toNat ≤ c.toNat ∧ c.toNat ≤ 'Z'.toNat :=
  decide_eq_true_iff

theorem isLower_iff : c.isLower = true ↔ 'a'.toNat ≤ c.toNat ∧ c.toNat ≤ 'z'.toNat :=
  Bool.and_eq_true_iff.trans (and_congr decide_eq_true_iff decide_eq_true_iff)

theorem isNameChar_iff :
    isNameChar c = true ↔ ((c.isUpper = true ∨ c.isLower = true) ∨ c.isDigit = true) ∨ c = '_' := by
  show (((c.isUpper || c.isLower) || c.isDigit) || c == '_') = true ↔ _
  simp only [Bool.or_eq_true, beq_iff_eq]

theorem toLower_cases (c : Char) : c.toLower = c ∨ c.isUpper = true ∧ c.toLower.isLower = true := by
  unfold Char.toLower
  split
  · rename_i h
    have hupper : 'A'.toNat ≤ c.toNat ∧ c.toNat ≤ 'Z'.toNat := h
    refine .inr ⟨isUpper_iff.2 hupper, isLower_iff.2 ?_⟩
    have hA : 'A'.toNat = 65 := rfl
    have hZ : 'Z'.toNat = 90 := rfl
    have ha : 'a'.toNat = 97 := rfl
    have hz : 'z'.toNat = 122 := rfl
    show 'a'.toNat ≤ (c.val + ('a'.val - 'A'.val)).toNat ∧
        (c.val + ('a'.val - 'A'.val)).toNat ≤ 'z'.toNat
    have hadd : (c.val + ('a'.val - 'A'.val)).toNat = c.toNat + 32 := by
      have hsub : ('a'.val - 'A'.val).toNat = 32 := rfl
      have hval : c.val.toNat = c.toNat := rfl
      rw [UInt32.toNat_add, hsub, hval]
      omega
    omega
  · exact .inl rfl

theorem isNameChar_of_toLower (h : isNameChar c.toLower = true) : isNameChar c = true := by
  rcases toLower_cases c with hc | ⟨hc, -⟩
  · rwa [hc] at h
  · exact isNameChar_iff.2 (.inl (.inl (.inl hc)))

theorem toLower_eq_self (h : isNameChar c.toLower = false) : c.toLower = c := by
  rcases toLower_cases c with hc | ⟨-, hc⟩
  · exact hc
  · exact absurd (isNameChar_iff.2 (.inl (.inl (.inr hc)))) (Bool.eq_false_iff.1 h)

theorem isBlank_of_isNameChar (h : isNameChar c = true) : Text.isBlank c = false := by
  by_contra hblank
  simp only [Text.isBlank, Bool.not_eq_false, Bool.or_eq_true, Bool.and_eq_true, decide_eq_true_eq,
    beq_iff_eq] at hblank
  have hA : 'A'.toNat = 65 := rfl
  have hZ : 'Z'.toNat = 90 := rfl
  have ha : 'a'.toNat = 97 := rfl
  have hz : 'z'.toNat = 122 := rfl
  have h0 : '0'.toNat = 48 := rfl
  have h9 : '9'.toNat = 57 := rfl
  rw [isNameChar_iff, isUpper_iff, isLower_iff, Char.isDigit_iff_toNat] at h
  rcases h with h | rfl
  · omega
  · revert hblank
    decide

end

/-- Characters of names stay such characters in any case. -/
theorem isNameChar_of_sameWord {word w : List Char} (h : Text.sameWord word w = true)
    (hword : ∀ c ∈ Text.lower word, isNameChar c = true) : ∀ c ∈ w, isNameChar c = true := by
  intro c hc
  have hlower : c.toLower ∈ Text.lower word := by
    rw [eq_of_beq h]
    exact List.mem_map_of_mem hc
  exact isNameChar_of_toLower (hword _ hlower)

theorem lower_eq_self {w : List Char} (h : ∀ c ∈ Text.lower w, isNameChar c = false) :
    Text.lower w = w := by
  induction w with
  | nil => rfl
  | cons c w ih =>
    obtain ⟨hc, hw⟩ := List.forall_mem_cons.1 h
    show c.toLower :: Text.lower w = c :: w
    rw [toLower_eq_self hc, ih hw]

/-- A word without letters has one form. -/
theorem eq_of_sameWord {word w : List Char} (h : Text.sameWord word w = true)
    (hword : ∀ c ∈ Text.lower word, isNameChar c = false) : w = word := by
  have hlower : Text.lower word = Text.lower w := eq_of_beq h
  rw [← lower_eq_self hword, hlower, lower_eq_self (hlower ▸ hword)]

theorem length_of_sameWord {word w : List Char} (h : Text.sameWord word w = true) :
    w.length = word.length := by
  simpa [Text.lower] using congrArg List.length (eq_of_beq h).symm

/-! ### Names -/

/-- A name in any case is the name of its field. -/
theorem ofName?_of_sameWord {f : Field} {name : List Char}
    (h : Text.sameWord f.name.toList name = true) :
    Field.ofName? name = some f := by
  have hself : Field.ofName? f.name.toList = some f := by cases f <;> rfl
  rw [← hself]
  unfold Field.ofName?
  simp only [Text.sameWord, ← eq_of_beq h]

theorem exists_cons_of_name {f : Field} {name : List Char}
    (h : Text.sameWord f.name.toList name = true) :
    ∃ d ds, name = d :: ds ∧ ∀ c ∈ d :: ds, isNameChar c = true := by
  have hlength := length_of_sameWord h
  have hpos : 0 < f.name.toList.length := by cases f <;> decide
  obtain ⟨d, ds, rfl⟩ := List.exists_cons_of_length_pos (hlength ▸ hpos)
  have hname : (Text.lower f.name.toList).all isNameChar = true := by cases f <;> decide
  exact ⟨d, ds, rfl, isNameChar_of_sameWord h (List.all_eq_true.1 hname)⟩

/-- A name is read up to the first character that is in no name. -/
theorem name_append {f : Field} {name rest : List Char}
    (h : Text.sameWord f.name.toList name = true) (hrest : ∀ c ∈ rest.head?, isNameChar c = false) :
    name.isEmpty = false ∧ Text.trimStart (name ++ rest) = name ++ rest ∧
      (name ++ rest).takeWhile isNameChar = name ∧ (name ++ rest).dropWhile isNameChar = rest := by
  obtain ⟨c, cs, rfl, hchars⟩ := exists_cons_of_name h
  have hend : rest.takeWhile isNameChar = [] ∧ rest.dropWhile isNameChar = rest := by
    cases rest with
    | nil => simp
    | cons d ds => simp [hrest d rfl]
  refine ⟨rfl, trimStart_cons (isBlank_of_isNameChar (hchars c (by simp))) _, ?_, ?_⟩
  · rw [List.takeWhile_append_of_pos hchars, hend.1, List.append_nil]
  · rw [List.dropWhile_append_of_pos hchars, hend.2]

/-! ### Comparators -/

/-- Letters begin no symbol. -/
theorem symbol?_eq_none {c : Char} (hc : isNameChar c = true) (cs : List Char) :
    symbol? symbols (c :: cs) = none := by
  have hne : ∀ d ∈ ['!', '>', '<', '='], ¬d = c := by
    rintro d hd rfl
    have hall : (['!', '>', '<', '='].all fun d => !isNameChar d) = true := by decide
    have hnone := List.all_eq_true.1 hall d hd
    simp [hc] at hnone
  simp only [List.mem_cons, List.not_mem_nil, or_false, forall_eq_or_imp, forall_eq] at hne
  simp [symbols, symbol?, Comparator.text, Text.after?, hne]

/-- A symbol is read, and no longer one, if the rest does not make it longer. -/
theorem symbol?_text {c : Comparator} (hc : ¬c.IsWord) {y : List Char} (hy : y.head? ≠ some '=') :
    symbol? symbols (c.text.toList ++ y) = some (c, y) := by
  have hlong : ∀ d, Text.after? [d, '='] (d :: y) = none := by
    intro d
    cases y with
    | nil => simp [Text.after?]
    | cons e y =>
      have he : '=' ≠ e := fun h => hy (h ▸ rfl)
      simp [Text.after?, he]
  cases c <;> simp [Comparator.IsWord] at hc <;>
    simp [symbols, symbol?, Comparator.text, hlong, Text.after?]

theorem isNameChar_of_isWord {c : Comparator} (hc : c.IsWord) :
    ∀ d ∈ Text.lower c.text.toList, isNameChar d = true := by
  rw [← List.all_eq_true]
  rcases hc with rfl | rfl <;> decide

theorem isNameChar_of_not_isWord {c : Comparator} (hc : ¬c.IsWord) :
    ∀ d ∈ Text.lower c.text.toList, isNameChar d = false := by
  have hall : ((Text.lower c.text.toList).all fun d => !isNameChar d) = true := by
    cases c <;> simp [Comparator.IsWord] at hc <;> decide
  intro d hd
  simpa using List.all_eq_true.1 hall d hd

/-- A comparator reads as written. -/
theorem comparator_written {c : Comparator} {a word y : List Char} (ha : Blanks a)
    (hword : Text.sameWord c.text.toList word = true) (hy : y.head? ≠ some '=')
    (hspace : c.IsWord → ∃ d ds, y = d :: ds ∧ Text.isBlank d = true) :
    comparator (a ++ (word ++ y)) = .ok (c, y) := by
  have hlower : Text.lower c.text.toList = Text.lower word := eq_of_beq hword
  by_cases hc : c.IsWord
  · obtain ⟨d, ds, rfl, hd⟩ := hspace hc
    have hchars := isNameChar_of_sameWord hword (isNameChar_of_isWord hc)
    have hlength := length_of_sameWord hword
    have hpos : 0 < c.text.toList.length := by cases c <;> decide
    obtain ⟨e, word, rfl⟩ := List.exists_cons_of_length_pos (hlength ▸ hpos)
    have htrim : Text.trimStart (a ++ (e :: word ++ d :: ds)) = e :: word ++ d :: ds := by
      rw [trimStart_blanks ha, List.cons_append,
        trimStart_cons (isBlank_of_isNameChar (hchars e (by simp)))]
    have hnotBlank : ∀ x ∈ e :: word, (!Text.isBlank x) = true := fun x hx => by
      simp [isBlank_of_isNameChar (hchars x hx)]
    have htake : (e :: word ++ d :: ds).takeWhile (!Text.isBlank ·) = e :: word := by
      rw [List.takeWhile_append_of_pos hnotBlank, List.takeWhile_cons_of_neg (by simp [hd]),
        List.append_nil]
    have hdrop : (e :: word ++ d :: ds).dropWhile (!Text.isBlank ·) = d :: ds := by
      rw [List.dropWhile_append_of_pos hnotBlank, List.dropWhile_cons_of_neg (by simp [hd])]
    have hsymbol : symbol? symbols (e :: word ++ d :: ds) = none :=
      symbol?_eq_none (hchars e (by simp)) _
    simp only [comparator, htrim, hsymbol, htake, hdrop, Text.sameWord, ← hlower]
    rcases hc with rfl | rfl <;> rfl
  · obtain rfl := eq_of_sameWord hword (isNameChar_of_not_isWord hc)
    have htrim : Text.trimStart (a ++ (c.text.toList ++ y)) = c.text.toList ++ y := by
      rw [trimStart_blanks ha]
      cases c <;> simp [Comparator.IsWord] at hc <;> rfl
    simp only [comparator, htrim, symbol?_text hc hy]

/-- Behind a name stands white space or a symbol. -/
theorem isNameChar_head_comparator {c : Comparator} {a word y : List Char} (ha : Blanks a)
    (hword : Text.sameWord c.text.toList word = true) (hspace : c.IsWord → a ≠ []) :
    ∀ d ∈ (a ++ (word ++ y)).head?, isNameChar d = false := by
  intro d hd
  cases a with
  | cons e a =>
    obtain rfl : e = d := by simpa using hd
    by_contra hname
    have hblank : Text.isBlank e = true := ha e (by simp)
    simp [isBlank_of_isNameChar (by simpa using hname)] at hblank
  | nil =>
    have hc : ¬c.IsWord := fun hc => hspace hc rfl
    have hnone := isNameChar_of_not_isWord hc
    obtain rfl := eq_of_sameWord hword hnone
    rw [lower_eq_self hnone] at hnone
    have hne : c.text.toList ≠ [] := by cases c <;> decide
    rw [List.nil_append, List.head?_append_of_ne_nil _ hne] at hd
    exact hnone d (List.mem_of_head? hd)

end Kanban.Filter
