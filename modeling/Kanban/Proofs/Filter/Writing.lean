import Kanban.Proofs.Filter.Pinned

/-!
# Writing filters

The ways to write an expression as a filter text (`Expr.Written`): the parts of a group stand in a
row with the mark of the group between them, and a part that is a group itself stands in
parentheses.  Names and words are in any letter case, integers in decimal, texts between quotes that
they do not contain, and white space stands wherever parts of the text meet; the comparators `like`
and `in` need some on both sides.  Every well-formed expression over integers, truth values and
texts without one of the quotes can be written (`Expr.WellFormed.exists_written`), and its
conditions stand in the text in their order (`Expr.Written.inOrder`).
-/

namespace Kanban.Filter

/-- White space only. -/
def Blanks (cs : List Char) : Prop := ∀ c ∈ cs, Text.isBlank c = true

/-- White space may surround a text. -/
def Padded (P : List Char → Prop) (cs : List Char) : Prop :=
  ∃ a w b, Blanks a ∧ P w ∧ Blanks b ∧ cs = a ++ (w ++ b)

/-- The texts of the further parts of a row, with a mark in front of each. -/
def behind {α : Type} (mark : List Char) (parts : List (α × List Char)) : List Char :=
  parts.flatMap fun p => mark ++ p.2

section

variable {α : Type} (mark : List Char)

@[simp]
theorem behind_nil : behind mark ([] : List (α × List Char)) = [] := rfl

@[simp]
theorem behind_cons (p : α × List Char) (ps : List (α × List Char)) :
    behind mark (p :: ps) = mark ++ (p.2 ++ behind mark ps) := by
  simp [behind]

end

/-- The ways to write a value. -/
inductive Scalar.Written : Scalar → List Char → Prop
  | int {i : Int} (h : Integer.Bounds.int64.holds i = true) : Scalar.Written (.int i)
      (toString i).toList
  | bool (b : Bool) : Scalar.Written (.bool b) (toString b).toList
  | text {s : String} {q : Char} (hq : q = '"' ∨ q = '\'') (hs : q ∉ s.toList) :
    Scalar.Written (.text s) (q :: (s.toList ++ [q]))

/-- The ways to write what a field is compared with; commas stand between the items of a list. -/
inductive Operand.Written : Operand → List Char → Prop
  | single {v : Scalar} {w : List Char} (h : v.Written w) : Operand.Written (.single v) w
  | several {item : Scalar × List Char} {items : List (Scalar × List Char)}
      (hitem : Padded item.1.Written item.2)
    (hitems : ∀ p ∈ items, Padded p.1.Written p.2) :
    Operand.Written (.several (item.1 :: items.map Prod.fst)) (item.2 ++ behind [','] items)

/-- The comparator is a word. -/
def Comparator.IsWord (c : Comparator) : Prop := c = .like ∨ c = .among

/-- The ways to write a condition: the name of the field, the comparator and the operand, with white
space around the comparator, which a word needs. -/
inductive Condition.Written : Condition → List Char → Prop
  | intro {f : Field} {c : Comparator} {o : Operand} {name a word b w : List Char}
    (hname : Text.sameWord f.name.toList name = true)
      (hword : Text.sameWord c.text.toList word = true)
    (ha : Blanks a) (hb : Blanks b) (hspace : c.IsWord → a ≠ [] ∧ b ≠ []) (hw : o.Written w) :
    Condition.Written ⟨f, c, o⟩ (name ++ (a ++ (word ++ (b ++ w))))

/-- Where an expression stands: as a whole text, or as a part of a group. -/
inductive Level where
  | whole
  | part

/-- The ways to write an expression.  A group is a part of another one only in parentheses; a
condition may have parentheses, too. -/
inductive Expr.Written : Level → Expr → List Char → Prop
  | condition {c : Condition} {w : List Char} (h : Padded c.Written w) : Expr.Written .part
      (.condition c) w
  | parentheses {e : Expr} {a w b : List Char} (ha : Blanks a) (h : Expr.Written .whole e w)
      (hb : Blanks b) :
    Expr.Written .part e (a ++ '(' :: (w ++ ')' :: b))
  | alone {e : Expr} {w : List Char} (h : Expr.Written .part e w) : Expr.Written .whole e w
  | all {part : Expr × List Char} {parts : List (Expr × List Char)} (hne : parts ≠ [])
    (hpart : Expr.Written .part part.1 part.2) (hparts : ∀ p ∈ parts, Expr.Written .part p.1 p.2) :
    Expr.Written .whole (.all (part.1 :: parts.map Prod.fst)) (part.2 ++ behind ['&', '&'] parts)
  | any {part : Expr × List Char} {parts : List (Expr × List Char)} (hne : parts ≠ [])
    (hpart : Expr.Written .part part.1 part.2) (hparts : ∀ p ∈ parts, Expr.Written .part p.1 p.2) :
    Expr.Written .whole (.any (part.1 :: parts.map Prod.fst)) (part.2 ++ behind ['|', '|'] parts)

/-! ### Expressions that can be written -/

/-- The value has a written form: an integer of 64 bits, a truth value, or a text without one of the
quotes. -/
def Scalar.Writable : Scalar → Prop
  | .int i => Integer.Bounds.int64.holds i = true
  | .bool _ => True
  | .text s => '"' ∉ s.toList ∨ '\'' ∉ s.toList
  | .double _ | .date _ => False

theorem Scalar.Writable.exists_written {v : Scalar} (h : v.Writable) : ∃ w, v.Written w := by
  cases v with
  | int i => exact ⟨_, .int h⟩
  | bool b => exact ⟨_, .bool b⟩
  | text s =>
    rcases h with hs | hs
    · exact ⟨_, .text (.inl rfl) hs⟩
    · exact ⟨_, .text (.inr rfl) hs⟩
  | double x => exact h.elim
  | date t => exact h.elim

theorem blanks_nil : Blanks [] := by simp [Blanks]

theorem blanks_singleton {c : Char} (hc : Text.isBlank c = true) :
    Blanks [c] := by simpa [Blanks] using hc

theorem padded_of {P : List Char → Prop} {w : List Char} (h : P w) : Padded P w :=
  ⟨[], w, [], blanks_nil, h, blanks_nil, by simp⟩

/-- Texts for all members of a list. -/
theorem exists_texts {α : Type} {P : α → List Char → Prop} {xs : List α}
    (h : ∀ x ∈ xs, ∃ w, P x w) :
    ∃ ps : List (α × List Char), ps.map Prod.fst = xs ∧ ∀ p ∈ ps, P p.1 p.2 := by
  induction xs with
  | nil => exact ⟨[], rfl, by simp⟩
  | cons x xs ih =>
    obtain ⟨⟨w, hw⟩, hxs⟩ := List.forall_mem_cons.1 h
    obtain ⟨ps, rfl, hps⟩ := ih hxs
    exact ⟨(x, w) :: ps, rfl, List.forall_mem_cons.2 ⟨hw, hps⟩⟩

theorem Operand.exists_written {o : Operand} (hne : o.values ≠ [])
    (h : ∀ v ∈ o.values, v.Writable) :
    ∃ w, o.Written w := by
  cases o with
  | single v =>
    obtain ⟨w, hw⟩ := (h v (by simp [Operand.values])).exists_written
    exact ⟨w, .single hw⟩
  | several vs =>
    obtain ⟨items, rfl, hitems⟩ :=
        exists_texts (P := fun v => Padded v.Written) fun v (hv : v ∈ vs) =>
      (h v hv).exists_written.imp fun w hw => padded_of hw
    cases items with
    | nil => exact absurd rfl hne
    | cons item items =>
      obtain ⟨hitem, hitems⟩ := List.forall_mem_cons.1 hitems
      exact ⟨_, .several hitem hitems⟩

theorem sameWord_self (cs : List Char) : Text.sameWord cs cs = true := beq_self_eq_true _

theorem Condition.exists_written {c : Condition} (hne : c.operand.values ≠ [])
    (h : ∀ v ∈ c.operand.values, v.Writable) : ∃ w, c.Written w := by
  obtain ⟨w, hw⟩ := Operand.exists_written hne h
  have hblank : Blanks [' '] := blanks_singleton (by decide)
  exact ⟨_, .intro (sameWord_self _) (sameWord_self _) hblank hblank
    (fun _ => ⟨by simp, by simp⟩) hw⟩

namespace Expr

theorem exists_written_parts {es : List Expr} (h : ∀ e ∈ es, ∃ w, e.Written .part w)
    (hlength : 2 ≤ es.length) :
    ∃ (part : Expr × List Char) (parts : List (Expr × List Char)),
    es = part.1 :: parts.map Prod.fst ∧ parts ≠ [] ∧
      part.1.Written .part part.2 ∧ ∀ p ∈ parts, p.1.Written .part p.2 := by
  obtain ⟨ps, rfl, hps⟩ := exists_texts h
  rcases ps with _ | ⟨part, _ | ⟨part', parts⟩⟩
  · simp at hlength
  · simp at hlength
  · obtain ⟨hpart, hparts⟩ := List.forall_mem_cons.1 hps
    exact ⟨part, part' :: parts, rfl, by simp, hpart, hparts⟩

theorem WellFormed.exists_written_part {e : Expr} (he : e.WellFormed)
    (h : ∀ c ∈ e.conditions, ∀ v ∈ c.operand.values, v.Writable) : ∃ w, e.Written .part w := by
  induction he with
  | @condition c hc =>
    obtain ⟨w, hw⟩ := Condition.exists_written hc.values (h c (by simp [conditions]))
    exact ⟨w, .condition (padded_of hw)⟩
  | all hlength _ ih =>
    have hparts := fun e he => ih e he fun c hc => h c (mem_conditionsOf.2 ⟨e, he, hc⟩)
    obtain ⟨part, parts, rfl, hne, hpart, hparts⟩ := exists_written_parts hparts hlength
    exact ⟨_, .parentheses blanks_nil (.all hne hpart hparts) blanks_nil⟩
  | any hlength _ ih =>
    have hparts := fun e he => ih e he fun c hc => h c (mem_conditionsOf.2 ⟨e, he, hc⟩)
    obtain ⟨part, parts, rfl, hne, hpart, hparts⟩ := exists_written_parts hparts hlength
    exact ⟨_, .parentheses blanks_nil (.any hne hpart hparts) blanks_nil⟩

/-- A well-formed expression has a written form if its values have. -/
theorem WellFormed.exists_written {e : Expr} (he : e.WellFormed)
    (h : ∀ c ∈ e.conditions, ∀ v ∈ c.operand.values, v.Writable) : ∃ w, e.Written .whole w :=
  (he.exists_written_part h).imp fun _ hw => .alone hw

end Expr

/-! ### The order of the conditions -/

/-- What may stand between conditions: white space, parentheses and marks. -/
def IsBetween (c : Char) : Prop := Text.isBlank c = true ∨ c ∈ ['(', ')', '&', '|']

/-- The conditions are written in the text one behind the other. -/
inductive InOrder : List Condition → List Char → Prop
  | nil {gap : List Char} (h : ∀ c ∈ gap, IsBetween c) : InOrder [] gap
  | cons {c : Condition} {cs : List Condition} {gap w rest : List Char}
      (hgap : ∀ c ∈ gap, IsBetween c)
    (hw : c.Written w) (hrest : InOrder cs rest) : InOrder (c :: cs) (gap ++ (w ++ rest))

namespace InOrder

variable {cs cs' : List Condition} {text text' : List Char}

theorem append_left {gap : List Char} (hgap : ∀ c ∈ gap, IsBetween c) (h : InOrder cs text) :
    InOrder cs (gap ++ text) := by
  cases h with
  | nil h => exact .nil fun c hc => (List.mem_append.1 hc).elim (hgap c) (h c)
  | @cons _ _ gap' _ _ hgap' hw hrest =>
    rw [← List.append_assoc]
    exact .cons (fun c hc => (List.mem_append.1 hc).elim (hgap c) (hgap' c)) hw hrest

theorem append (h : InOrder cs text) (h' : InOrder cs' text') :
    InOrder (cs ++ cs') (text ++ text') := by
  induction h with
  | nil h => exact h'.append_left h
  | cons hgap hw _ ih =>
    rw [List.append_assoc, List.append_assoc]
    exact .cons hgap hw ih

theorem append_right {gap : List Char} (h : InOrder cs text) (hgap : ∀ c ∈ gap, IsBetween c) :
    InOrder cs (text ++ gap) := by
  simpa using h.append (.nil hgap)

end InOrder

theorem Blanks.isBetween {a : List Char} (h : Blanks a) : ∀ c ∈ a, IsBetween c :=
  fun c hc => .inl (h c hc)

namespace Expr

theorem inOrder_parts (mark : List Char) (hmark : ∀ c ∈ mark, IsBetween c)
    {parts : List (Expr × List Char)} (h : ∀ p ∈ parts, InOrder p.1.conditions p.2) :
    InOrder (conditionsOf (parts.map Prod.fst)) (behind mark parts) := by
  induction parts with
  | nil => exact .nil (List.forall_mem_nil _)
  | cons p ps ih =>
    obtain ⟨hp, hps⟩ := List.forall_mem_cons.1 h
    rw [behind_cons, ← List.append_assoc]
    exact (hp.append_left hmark).append (ih hps)

/-- The conditions of an expression stand in its text in their order. -/
theorem Written.inOrder {level : Level} {e : Expr} {w : List Char} (h : e.Written level w) :
    InOrder e.conditions w := by
  induction h with
  | condition h =>
    obtain ⟨a, w, b, ha, hw, hb, rfl⟩ := h
    exact .cons ha.isBetween hw (.nil hb.isBetween)
  | parentheses ha _ hb ih =>
    have hopen : ∀ c ∈ ['('], IsBetween c := by simp [IsBetween]
    have hclose : ∀ c ∈ [')'], IsBetween c := by simp [IsBetween]
    have hinner := (ih.append_left hopen).append_right hclose
    simpa using (hinner.append_left ha.isBetween).append_right hb.isBetween
  | alone _ ih => exact ih
  | all _ _ _ ihpart ihparts =>
    exact ihpart.append (inOrder_parts ['&', '&'] (by simp [IsBetween]) ihparts)
  | any _ _ _ ihpart ihparts =>
    exact ihpart.append (inOrder_parts ['|', '|'] (by simp [IsBetween]) ihparts)

end Expr

end Kanban.Filter
