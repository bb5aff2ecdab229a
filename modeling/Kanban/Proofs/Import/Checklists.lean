import Mathlib.Data.List.Basic
import Kanban.Import.Checklist

/-!
# Checklists in markup

Escaping a text puts entities in the place of `&`, `<` and `>`, one mark after the other, the
ampersand first (`Markup.escape_eq_replaced`); putting the marks back in the opposite order gives
the text again (`Markup.replaced_escape`).  No mark is left that begins an element, so a name ends
where the next element begins, and a row of items or checklists can be told from all that may follow
it (`Checklist.itemMarkup_append`, `Checklist.markup_append`).  So checklists that are written
behind one description are lost in none of it (`Checklist.describe_faithful`).
-/

namespace Kanban

/-! ### Replacing -/

namespace Text

variable {pattern new : List Char}

/-- What `replaced` makes of a text whose first `skip` characters end an occurrence that was
replaced before. -/
def replacedFrom (pattern new : List Char) : (skip : Nat) → List Char → List Char
  | _, [] => []
  | skip + 1, _ :: cs => replacedFrom pattern new skip cs
  | 0, c :: cs =>
    if pattern.isPrefixOf (c :: cs) then new ++ replacedFrom pattern new (pattern.length - 1) cs
    else c :: replacedFrom pattern new 0 cs

/-- The text with another one in the place of each occurrence of a pattern, which is not empty.
Occurrences are sought from left to right and do not overlap. -/
def replaced (pattern new cs : List Char) : List Char := replacedFrom pattern new 0 cs

theorem replacedFrom_append (u r : List Char) :
    replacedFrom pattern new u.length (u ++ r) = replaced pattern new r := by
  induction u with
  | nil => rfl
  | cons c u ih => exact ih

theorem replaced_pattern_append (h : pattern ≠ []) (r : List Char) :
    replaced pattern new (pattern ++ r) = new ++ replaced pattern new r := by
  cases pattern with
  | nil => exact absurd rfl h
  | cons p ps =>
    have hprefix : (p :: ps).isPrefixOf (p :: (ps ++ r)) = true := by
      rw [List.isPrefixOf_iff_prefix]
      exact List.prefix_append (p :: ps) r
    rw [List.cons_append, replaced, replacedFrom, if_pos hprefix]
    exact congrArg (new ++ ·) (replacedFrom_append ps r)

/-- A part without the first character of the pattern stays as it is. -/
theorem replaced_append_of_not_mem {p : Char} {ps u : List Char} (h : p ∉ u) (r : List Char) :
    replaced (p :: ps) new (u ++ r) = u ++ replaced (p :: ps) new r := by
  induction u with
  | nil => rfl
  | cons c u ih =>
    rw [List.mem_cons, not_or] at h
    have hprefix : ¬ (p :: ps).isPrefixOf (c :: (u ++ r)) = true := by
      rw [List.isPrefixOf_iff_prefix, List.cons_prefix_cons]
      exact fun hpre => h.1 hpre.1
    rw [List.cons_append, replaced, replacedFrom, if_neg hprefix]
    exact congrArg (c :: ·) (ih h.2)

/-- Replacing goes through a text that is written character by character. -/
theorem replaced_flatMap {f g : Char → List Char}
    (h : ∀ c r, replaced pattern new (f c ++ r) = g c ++ replaced pattern new r) (cs : List Char) :
    replaced pattern new (cs.flatMap f) = cs.flatMap g := by
  induction cs with
  | nil => rfl
  | cons c cs ih => rw [List.flatMap_cons, h, ih, List.flatMap_cons]

end Text

namespace Markup

open Text (replaced replaced_flatMap replaced_pattern_append replaced_append_of_not_mem)

/-! ### Escaping -/

/-- A character as it is written while only some of the marks are escaped. -/
def escapeOnly (marks : List Char) (c : Char) : List Char := if c ∈ marks then escapeChar c else [c]

theorem escapeOnly_all {marks : List Char} (hamp : '&' ∈ marks) (hlt : '<' ∈ marks)
    (hgt : '>' ∈ marks) :
    escapeOnly marks = escapeChar := by
  funext c
  unfold escapeOnly
  split
  · rfl
  · rename_i h
    have hne : ∀ {x : Char}, x ∈ marks → c ≠ x := fun hx heq => h (heq ▸ hx)
    rw [escapeChar, if_neg (hne hamp), if_neg (hne hlt), if_neg (hne hgt)]

theorem flatMap_escapeOnly_nil (cs : List Char) : cs.flatMap (escapeOnly []) = cs :=
  List.flatMap_singleton' cs

/-- One more mark is escaped, which is no part of the entities that are there. -/
theorem replaced_mark (x : Char) (marks : List Char) (hx : x ∉ marks)
    (hclear : ∀ c ∈ marks, x ∉ escapeChar c) (cs : List Char) :
    replaced [x] (escapeChar x) (cs.flatMap (escapeOnly marks)) =
      cs.flatMap (escapeOnly (x :: marks)) := by
  refine replaced_flatMap (fun c r => ?_) cs
  unfold escapeOnly
  by_cases hc : c ∈ marks
  · rw [if_pos hc, if_pos (List.mem_cons_of_mem x hc)]
    exact replaced_append_of_not_mem (hclear c hc) r
  rw [if_neg hc]
  by_cases hcx : c = x
  · subst hcx
    rw [if_pos (List.mem_cons_self ..)]
    exact replaced_pattern_append (List.cons_ne_nil _ _) r
  · rw [if_neg (by simp [hcx, hc])]
    exact replaced_append_of_not_mem (by simpa using Ne.symm hcx) r

/-- The entities of one mark are replaced by the mark, as long as no other `&` is read as the
beginning of one. -/
theorem replaced_entity (x : Char) (marks : List Char) {rest : List Char}
    (hentity : escapeChar x = '&' :: rest) (hx : x ∉ marks) (hamp : '&' ∈ x :: marks)
    (hother : ∀ c ∈ marks, ∀ r, replaced (escapeChar x) [x] (escapeChar c ++ r) =
      escapeChar c ++ replaced (escapeChar x) [x] r)
    (cs : List Char) :
    replaced (escapeChar x) [x] (cs.flatMap (escapeOnly (x :: marks))) =
      cs.flatMap (escapeOnly marks) := by
  refine replaced_flatMap (fun c r => ?_) cs
  unfold escapeOnly
  by_cases hc : c ∈ marks
  · rw [if_pos hc, if_pos (List.mem_cons_of_mem x hc)]
    exact hother c hc r
  rw [if_neg hc]
  by_cases hcx : c = x
  · subst hcx
    rw [if_pos (List.mem_cons_self ..)]
    exact replaced_pattern_append (by simp [hentity]) r
  · have hmem : c ∉ x :: marks := by simp [hcx, hc]
    rw [if_neg hmem, hentity]
    exact replaced_append_of_not_mem (by simpa using fun h : '&' = c => hmem (h ▸ hamp)) r

/-- Escaping is three replacements, the one of the ampersand first. -/
theorem escape_eq_replaced (cs : List Char) :
    escape cs = replaced ['>'] "&gt;".toList
      (replaced ['<'] "&lt;".toList (replaced ['&'] "&amp;".toList cs)) := by
  have hamp := replaced_mark '&' [] (by simp) (by simp) cs
  have hlt := replaced_mark '<' ['&'] (by decide) (List.forall_mem_singleton.2 (by decide)) cs
  have hgt := replaced_mark '>' ['<', '&'] (by decide)
    (List.forall_mem_cons.2 ⟨by decide, List.forall_mem_singleton.2 (by decide)⟩) cs
  rw [flatMap_escapeOnly_nil] at hamp
  rw [← hamp] at hlt
  rw [← hlt, escapeOnly_all (by simp) (by simp) (by simp)] at hgt
  exact hgt.symm

/-- The three replacements are undone, that of the ampersand last. -/
theorem replaced_escape (cs : List Char) :
    replaced "&amp;".toList ['&']
      (replaced "&gt;".toList ['>'] (replaced "&lt;".toList ['<'] (escape cs))) = cs := by
  have hnone : ∀ P : Char → Prop, ∀ c ∈ [], P c := fun _ => List.forall_mem_nil _
  have hlt := replaced_entity '<' ['>', '&'] rfl (by decide) (by decide)
    (List.forall_mem_cons.2 ⟨fun _ => rfl, List.forall_mem_cons.2 ⟨fun _ => rfl, hnone _⟩⟩) cs
  have hgt := replaced_entity '>' ['&'] rfl (by decide) (by decide)
    (List.forall_mem_cons.2 ⟨fun _ => rfl, hnone _⟩) cs
  have hamp := replaced_entity '&' [] rfl (by simp) (by simp) (hnone _) cs
  rw [escapeOnly_all (by simp) (by simp) (by simp)] at hlt
  rw [← hlt] at hgt
  rw [← hgt, flatMap_escapeOnly_nil] at hamp
  exact hamp

theorem escape_inj {cs ds : List Char} (h : escape cs = escape ds) : cs = ds := by
  rw [← replaced_escape cs, h, replaced_escape ds]

/-- No mark that begins or ends an element is left. -/
theorem not_mem_escape (cs : List Char) : '<' ∉ escape cs ∧ '>' ∉ escape cs := by
  have hnone : ∀ c, '<' ∉ escapeChar c ∧ '>' ∉ escapeChar c := by
    intro c
    unfold escapeChar
    split
    · decide
    split
    · decide
    split
    · decide
    · rename_i hlt hgt
      simp [Ne.symm hlt, Ne.symm hgt]
  simp only [escape, List.mem_flatMap, not_exists, not_and]
  exact ⟨fun c _ => (hnone c).1, fun c _ => (hnone c).2⟩

end Markup

attribute [ext] ChecklistItem Checklist

/-! ### Rows of elements -/

section

variable {α β : Type} {f : α → List β}

/-- Rows that are written one after the other can be told from what is written, if each of them can
and an end looks like no row. -/
theorem flatMap_append_inj (hf : ∀ x y r s, f x ++ r = f y ++ s → x = y ∧ r = s) {P : List β → Prop}
    (hends : ∀ x r, ¬ P (f x ++ r)) {xs ys : List α} {r s : List β} (hr : P r) (hs : P s)
    (h : xs.flatMap f ++ r = ys.flatMap f ++ s) : xs = ys ∧ r = s := by
  induction xs generalizing ys with
  | nil =>
    cases ys with
    | nil => exact ⟨rfl, h⟩
    | cons y ys =>
      rw [List.flatMap_nil, List.nil_append, List.flatMap_cons, List.append_assoc] at h
      exact absurd (h ▸ hr) (hends y _)
  | cons x xs ih =>
    cases ys with
    | nil =>
      rw [List.flatMap_nil, List.nil_append, List.flatMap_cons, List.append_assoc] at h
      exact absurd (h ▸ hs) (hends x _)
    | cons y ys =>
      rw [List.flatMap_cons, List.flatMap_cons, List.append_assoc, List.append_assoc] at h
      obtain ⟨rfl, htail⟩ := hf x y _ _ h
      obtain ⟨rfl, hrest⟩ := ih htail
      exact ⟨rfl, hrest⟩

/-- A text up to the first of a character. -/
theorem append_cons_inj {c : β} {u v r s : List β} (hu : c ∉ u) (hv : c ∉ v)
    (h : u ++ c :: r = v ++ c :: s) :
    u = v ∧ r = s := by
  induction u generalizing v with
  | nil =>
    cases v with
    | nil => exact ⟨rfl, (List.cons.inj h).2⟩
    | cons d v => exact absurd ((List.cons.inj h).1 ▸ List.mem_cons_self ..) hv
  | cons d u ih =>
    cases v with
    | nil => exact absurd ((List.cons.inj h).1 ▸ List.mem_cons_self ..) hu
    | cons e v =>
      obtain ⟨rfl, htail⟩ := List.cons.inj h
      rw [List.mem_cons, not_or] at hu hv
      obtain ⟨rfl, hrest⟩ := ih hu.2 hv.2 htail
      exact ⟨rfl, hrest⟩

end

namespace Checklist

/-- A name ends where the next element begins. -/
theorem name_append {n m : String} {r s : List Char}
    (h : Markup.escape n.toList ++ '<' :: r = Markup.escape m.toList ++ '<' :: s) :
    n = m ∧ r = s := by
  obtain ⟨hname, hrest⟩ := append_cons_inj (Markup.not_mem_escape _).1 (Markup.not_mem_escape _).1 h
  exact ⟨String.toList_inj.1 (Markup.escape_inj hname), hrest⟩

/-- What stands ahead of the name of an item. -/
def itemOpening (checked : Bool) : List Char :=
  let state := if checked then "true" else "false"
  let box :=
    if checked then "<input type=\"checkbox\" checked=\"checked\">"
    else "<input type=\"checkbox\">"
  ("\n<li data-checked=\"" ++ state ++ "\" data-type=\"taskItem\"><label>" ++ box ++
    "<span></span></label><div><p>").toList

theorem itemMarkup_eq (i : ChecklistItem) (r : List Char) :
    itemMarkup i ++ r =
      itemOpening i.checked ++ (Markup.escape i.name.toList ++ '<' ::
        ("/p></div></li>".toList ++ r)) := by
  have hclosing : "</p></div></li>".toList = '<' :: "/p></div></li>".toList := by simp
  unfold itemMarkup itemOpening
  simp only [List.append_assoc, List.cons_append, hclosing]

theorem head?_itemOpening (checked : Bool) (r : List Char) :
    (itemOpening checked ++ r).head? = some '\n' := by
  have hfirst : "\n<li data-checked=\"".toList = '\n' :: "<li data-checked=\"".toList := by simp
  simp only [itemOpening, String.toList_append, List.append_assoc, hfirst, List.cons_append,
    List.head?_cons]

theorem itemOpening_append {a b : Bool} {r s : List Char}
    (h : itemOpening a ++ r = itemOpening b ++ s) :
    a = b ∧ r = s := by
  have hstate : ∀ r s : List Char, "true".toList ++ r ≠ "false".toList ++ s := fun r s => by simp
  -- The two openings agree up to the state.
  have hne : ∀ r s : List Char, itemOpening true ++ r ≠ itemOpening false ++ s := fun r s h => by
    simp only [itemOpening, String.toList_append, List.append_assoc,
      List.append_cancel_left_eq, if_true, Bool.false_eq_true, if_false] at h
    exact hstate _ _ h
  cases a <;> cases b
  · exact ⟨rfl, List.append_cancel_left h⟩
  · exact absurd h.symm (hne _ _)
  · exact absurd h (hne _ _)
  · exact ⟨rfl, List.append_cancel_left h⟩

theorem itemMarkup_append {i j : ChecklistItem} {r s : List Char}
    (h : itemMarkup i ++ r = itemMarkup j ++ s) :
    i = j ∧ r = s := by
  rw [itemMarkup_eq, itemMarkup_eq] at h
  obtain ⟨hchecked, h⟩ := itemOpening_append h
  obtain ⟨hname, h⟩ := name_append h
  exact ⟨ChecklistItem.ext hname hchecked, List.append_cancel_left h⟩

theorem markup_eq (c : Checklist) (r : List Char) :
    markup c ++ r =
      "\n\n<h2>".toList ++ (Markup.escape c.name.toList ++ '<' ::
        ("/h2>\n\n<ul data-type=\"taskList\">".toList ++
        (c.items.flatMap itemMarkup ++ ("</ul>".toList ++ r)))) := by
  have hclosing : "</h2>\n\n<ul data-type=\"taskList\">".toList =
      '<' :: "/h2>\n\n<ul data-type=\"taskList\">".toList := by simp
  unfold markup
  simp only [List.append_assoc, List.cons_append, hclosing]

theorem markup_append {c d : Checklist} {r s : List Char} (h : markup c ++ r = markup d ++ s) :
    c = d ∧ r = s := by
  -- An item begins with a new line, and the end of the list does not.
  have hitem : ∀ (i : ChecklistItem) (r : List Char), ¬ (itemMarkup i ++ r).head? = some '<' := by
    intro i r
    rw [itemMarkup_eq, head?_itemOpening]
    decide
  have hend : ∀ r : List Char, ("</ul>".toList ++ r).head? = some '<' := fun r => by simp
  rw [markup_eq, markup_eq] at h
  obtain ⟨hname, h⟩ := name_append (List.append_cancel_left h)
  obtain ⟨hitems, h⟩ :=
    flatMap_append_inj (P := fun cs => cs.head? = some '<')
      (fun _ _ _ _ => itemMarkup_append) hitem (hend r)
      (hend s) (List.append_cancel_left h)
  exact ⟨Checklist.ext hname hitems, List.append_cancel_left h⟩

theorem flatMap_markup_inj {a b : List Checklist} (h : a.flatMap markup = b.flatMap markup) :
    a = b := by
  have hmarkup : ∀ (c : Checklist) (r : List Char), ¬ markup c ++ r = [] := fun c r => by
    rw [markup_eq]
    simp
  have happend : a.flatMap markup ++ [] = b.flatMap markup ++ [] := by rw [h]
  exact (flatMap_append_inj (P := fun cs => cs = [])
    (fun _ _ _ _ => markup_append) hmarkup rfl rfl happend).1

/-! ### Descriptions -/

/-- White space is trimmed up to the first element at most, whatever follows. -/
theorem trimStart_append_inj {u r s : List Char} {c : Char} (hc : Text.isBlank c = false)
    (h : Text.trimStart (u ++ c :: r) = Text.trimStart (u ++ c :: s)) : r = s := by
  have hblank : ∀ r, (u ++ c :: r).takeWhile Text.isBlank = u.takeWhile Text.isBlank := fun r => by
    rw [List.takeWhile_append]
    split
    · rename_i hall
      rw [List.takeWhile_cons, hc, (List.takeWhile_prefix _).eq_of_length hall]
      simp
    · rfl
  have happend : u ++ c :: r = u ++ c :: s := by
    rw [← List.takeWhile_append_dropWhile (p := Text.isBlank) (l := u ++ c :: r),
      hblank r, ← hblank s]
    rw [Text.trimStart, Text.trimStart] at h
    rw [h, List.takeWhile_append_dropWhile]
  exact (List.cons.inj (List.append_cancel_left happend)).2

theorem exists_flatMap_markup {a : List Checklist} (h : a ≠ []) :
    ∃ r, a.flatMap markup = "\n\n".toList ++ '<' :: r := by
  obtain ⟨c, a, rfl⟩ := List.exists_cons_of_ne_nil h
  -- The new lines can go with white space at the end of the description.
  have hheading : "\n\n<h2>".toList = "\n\n".toList ++ '<' :: "h2>".toList := by simp
  rw [List.flatMap_cons, markup_eq, hheading, List.append_assoc, List.cons_append]
  exact ⟨_, rfl⟩

theorem describe_inj {d : Option String} {a b : List Checklist} (ha : a ≠ []) (hb : b ≠ [])
    (h : describe d a = describe d b) : a = b := by
  have hsome : ∀ {c : List Checklist}, c ≠ [] →
      describe d c = some (String.ofList
        (Text.trimStart ((d.getD "").toList ++ c.flatMap markup))) := fun hc => by
    rw [describe, if_neg (by simpa using hc)]
  rw [hsome ha, hsome hb, Option.some_inj, String.ofList_inj] at h
  obtain ⟨r, hr⟩ := exists_flatMap_markup ha
  obtain ⟨s, hs⟩ := exists_flatMap_markup hb
  have hmark : Text.isBlank '<' = false := by decide
  rw [hr, hs, ← List.append_assoc, ← List.append_assoc] at h
  obtain rfl : r = s := trimStart_append_inj hmark h
  exact flatMap_markup_inj (hr.trans hs.symm)

/-- Nothing is lost of the checklists behind a description and nothing can be taken for them.
Escaping is three replacements, it leaves no mark that begins or ends an element, and it is undone
by putting the marks back, the ampersand last; two different rows of checklists never give the same
description, whatever is in their names. -/
theorem describe_faithful :
    (∀ cs,
      Markup.escape cs =
        Text.replaced ['>'] "&gt;".toList
          (Text.replaced ['<'] "&lt;".toList (Text.replaced ['&'] "&amp;".toList cs)) ∧
      '<' ∉ Markup.escape cs ∧ '>' ∉ Markup.escape cs ∧
      Text.replaced "&amp;".toList ['&'] (Text.replaced "&gt;".toList ['>']
        (Text.replaced "&lt;".toList ['<'] (Markup.escape cs))) = cs) ∧
      ∀ d a b, a ≠ [] → b ≠ [] → a ≠ b → describe d a ≠ describe d b := by
  refine ⟨fun cs => ?_, fun d a b ha hb hne h => hne (describe_inj ha hb h)⟩
  obtain ⟨hlt, hgt⟩ := Markup.not_mem_escape cs
  exact ⟨Markup.escape_eq_replaced cs, hlt, hgt, Markup.replaced_escape cs⟩

/-- A name that looks like the end of a heading and an empty list, behind a blank description, is
not taken for a second checklist. -/
theorem describe_faithful_imitation :
    describe (some " ") [⟨"a", []⟩, ⟨"b", []⟩] ≠
      describe (some " ") [⟨"a</h2>\n\n<ul data-type=\"taskList\"></ul>\n\n<h2>b", []⟩] :=
  describe_faithful.2 _ _ _ (by decide) (by decide) (by decide)

end Checklist

end Kanban
