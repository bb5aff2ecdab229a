import Kanban.Filter.Parser
import Kanban.Proofs.Success

/-!
# Filters that are read

Every group of a filter that was read has at least two parts, and every condition has a comparator
that its field supports and values of the kind of the field, several of them exactly behind the
comparator `in` (`Expr.WellFormed`, `Filter.parse_wellFormed`).
-/

namespace Kanban.Filter

/-- The kind of fields that a value is for. -/
def Scalar.kind : Scalar → Field.Kind
  | int _ => .int
  | double _ => .double
  | bool _ => .bool
  | text _ => .text
  | date _ => .date

/-- The condition compares its field with values of its kind in a supported way. -/
structure Condition.WellFormed (c : Condition) : Prop where
  supported : supports c.field c.comparator = true
  kinds : ∀ v ∈ c.operand.values, v.kind = c.field.kind
  several : c.comparator = .among ↔ ∃ vs, c.operand = .several vs
  values : c.operand.values ≠ []

/-- The groups have at least two parts, and the conditions are well-formed. -/
inductive Expr.WellFormed : Expr → Prop where
  | condition {c : Condition} (h : c.WellFormed) : Expr.WellFormed (.condition c)
  | all {parts : List Expr} (hparts : 2 ≤ parts.length) (h : ∀ e ∈ parts, Expr.WellFormed e) :
      Expr.WellFormed (.all parts)
  | any {parts : List Expr} (hparts : 2 ≤ parts.length) (h : ∀ e ∈ parts, Expr.WellFormed e) :
      Expr.WellFormed (.any parts)

/-! ### Values -/

variable {ctx : Context}

theorem kind_of_scalar? {kind : Field.Kind} {raw : List Char} {v : Scalar}
    (h : scalar? ctx kind raw = some v) :
    v.kind = kind := by
  cases kind <;> simp only [scalar?, Option.map_eq_some_iff, Option.some.injEq] at h
  case text => rw [← h]; rfl
  all_goals obtain ⟨_, -, rfl⟩ := h; rfl

theorem kind_of_value {marks : List String} {f : Field} {cs rest : List Char} {v : Scalar}
    (h : value ctx marks f cs = .ok (v, rest)) : v.kind = f.kind := by
  obtain ⟨⟨raw, rest'⟩, -, hvalue⟩ := bind_eq_ok.1 h
  simp only at hvalue
  split at hvalue
  · rename_i w hw
    obtain ⟨rfl, rfl⟩ := Prod.mk.inj (Except.ok.inj hvalue)
    exact kind_of_scalar? hw
  · simp at hvalue

theorem kind_of_mem_values {f : Field} {n : Nat} {cs rest : List Char} {vs : List Scalar}
    (h : values ctx f n cs = .ok (vs, rest)) : vs ≠ [] ∧ ∀ v ∈ vs, v.kind = f.kind := by
  induction n generalizing cs vs with
  | zero => simp [values] at h
  | succ n ih =>
    obtain ⟨⟨v, rest'⟩, hvalue, hmore⟩ := bind_eq_ok.1 h
    have hv := kind_of_value hvalue
    simp only at hmore
    split at hmore
    · obtain ⟨rfl, rfl⟩ := Prod.mk.inj (Except.ok.inj hmore)
      simp [hv]
    · obtain ⟨⟨ws, rest''⟩, hvalues, heq⟩ := bind_eq_ok.1 hmore
      obtain ⟨rfl, rfl⟩ := Prod.mk.inj (Except.ok.inj heq)
      simpa [hv] using (ih hvalues).2

/-! ### Conditions and groups -/

theorem condition_wellFormed {cs rest : List Char} {e : Expr}
    (h : condition ctx cs = .ok (e, rest)) : e.WellFormed := by
  unfold condition at h
  simp only at h
  split at h
  · simp at h
  split at h
  · simp at h
  rename_i f hf
  obtain ⟨⟨c, rest'⟩, -, h⟩ := bind_eq_ok.1 h
  simp only at h
  split at h
  · rename_i hsupports
    obtain ⟨⟨o, rest''⟩, hoperand, heq⟩ := bind_eq_ok.1 h
    obtain ⟨rfl, rfl⟩ := Prod.mk.inj (Except.ok.inj heq)
    refine .condition ?_
    unfold operand at hoperand
    split at hoperand
    · rename_i hc
      obtain ⟨⟨vs, rest'''⟩, hvalues, heq⟩ := bind_eq_ok.1 hoperand
      obtain ⟨rfl, rfl⟩ := Prod.mk.inj (Except.ok.inj heq)
      obtain ⟨hne, hkinds⟩ := kind_of_mem_values hvalues
      exact ⟨hsupports, hkinds, ⟨fun _ => ⟨vs, rfl⟩, fun _ => hc⟩, hne⟩
    · rename_i hc
      obtain ⟨⟨v, rest'''⟩, hvalue, heq⟩ := bind_eq_ok.1 hoperand
      obtain ⟨rfl, rfl⟩ := Prod.mk.inj (Except.ok.inj heq)
      have hkind := kind_of_value hvalue
      exact ⟨hsupports, by simpa [Operand.values] using hkind, ⟨fun h =>
        absurd h hc, by rintro ⟨vs, ⟨⟩⟩⟩,
        by simp [Operand.values]⟩
  · simp at h

/-- One part stands for itself, and more make a group. -/
theorem group_cases {P : Expr → Prop} {join : List Expr → Expr} {first : Expr} {more : List Expr}
    (hfirst : P first) (hjoin : ∀ e es, more = e :: es → P (join (first :: more))) :
    P (group join first more) := by
  cases more with
  | nil => exact hfirst
  | cons e es => exact hjoin e es rfl

mutual

/-- What a disjunction reads is well-formed. -/
theorem disjunction_wellFormed {n : Nat} {cs rest : List Char} {e : Expr}
    (h : disjunction ctx n cs = .ok (e, rest)) : e.WellFormed := by
  match n with
  | 0 => simp [disjunction] at h
  | n + 1 =>
    unfold disjunction at h
    obtain ⟨⟨first, rest'⟩, hfirst, h⟩ := bind_eq_ok.1 h
    obtain ⟨⟨more, rest''⟩, hmore, heq⟩ := bind_eq_ok.1 h
    obtain ⟨rfl, rfl⟩ := Prod.mk.inj (Except.ok.inj heq)
    -- A group is made only where something follows the first part.
    have hfirst := conjunction_wellFormed hfirst
    have hmore := disjuncts_wellFormed hmore
    exact group_cases hfirst fun e es hes =>
      .any (by simp [hes]) (List.forall_mem_cons.2 ⟨hfirst, hmore⟩)

theorem disjuncts_wellFormed {n : Nat} {cs rest : List Char} {es : List Expr}
    (h : disjuncts ctx n cs = .ok (es, rest)) : ∀ e ∈ es, e.WellFormed := by
  match n with
  | 0 => simp [disjuncts] at h
  | n + 1 =>
    unfold disjuncts at h
    split at h
    · obtain ⟨rfl, rfl⟩ := Prod.mk.inj (Except.ok.inj h)
      simp
    · obtain ⟨⟨first, rest'⟩, hfirst, h⟩ := bind_eq_ok.1 h
      obtain ⟨⟨more, rest''⟩, hmore, heq⟩ := bind_eq_ok.1 h
      obtain ⟨rfl, rfl⟩ := Prod.mk.inj (Except.ok.inj heq)
      exact List.forall_mem_cons.2 ⟨conjunction_wellFormed hfirst, disjuncts_wellFormed hmore⟩

theorem conjunction_wellFormed {n : Nat} {cs rest : List Char} {e : Expr}
    (h : conjunction ctx n cs = .ok (e, rest)) : e.WellFormed := by
  match n with
  | 0 => simp [conjunction] at h
  | n + 1 =>
    unfold conjunction at h
    obtain ⟨⟨first, rest'⟩, hfirst, h⟩ := bind_eq_ok.1 h
    obtain ⟨⟨more, rest''⟩, hmore, heq⟩ := bind_eq_ok.1 h
    obtain ⟨rfl, rfl⟩ := Prod.mk.inj (Except.ok.inj heq)
    have hfirst := primary_wellFormed hfirst
    have hmore := conjuncts_wellFormed hmore
    exact group_cases hfirst fun e es hes =>
      .all (by simp [hes]) (List.forall_mem_cons.2 ⟨hfirst, hmore⟩)

theorem conjuncts_wellFormed {n : Nat} {cs rest : List Char} {es : List Expr}
    (h : conjuncts ctx n cs = .ok (es, rest)) : ∀ e ∈ es, e.WellFormed := by
  match n with
  | 0 => simp [conjuncts] at h
  | n + 1 =>
    unfold conjuncts at h
    split at h
    · obtain ⟨rfl, rfl⟩ := Prod.mk.inj (Except.ok.inj h)
      simp
    · obtain ⟨⟨first, rest'⟩, hfirst, h⟩ := bind_eq_ok.1 h
      obtain ⟨⟨more, rest''⟩, hmore, heq⟩ := bind_eq_ok.1 h
      obtain ⟨rfl, rfl⟩ := Prod.mk.inj (Except.ok.inj heq)
      exact List.forall_mem_cons.2 ⟨primary_wellFormed hfirst, conjuncts_wellFormed hmore⟩

theorem primary_wellFormed {n : Nat} {cs rest : List Char} {e : Expr}
    (h : primary ctx n cs = .ok (e, rest)) : e.WellFormed := by
  match n with
  | 0 => simp [primary] at h
  | n + 1 =>
    unfold primary at h
    split at h
    · exact condition_wellFormed h
    · obtain ⟨⟨e', rest'⟩, hinner, h⟩ := bind_eq_ok.1 h
      simp only at h
      split at h
      · simp at h
      · obtain ⟨rfl, rfl⟩ := Prod.mk.inj (Except.ok.inj h)
        exact disjunction_wellFormed hinner

end

theorem parseIn_wellFormed {z : Zone} {now : Instant} {cs : List Char} {e : Expr}
    (h : parseIn z now cs = .ok e) :
    e.WellFormed := by
  obtain ⟨⟨e', rest⟩, hread, h⟩ := bind_eq_ok.1 h
  simp only at h
  split at h
  · obtain rfl := Except.ok.inj h
    exact disjunction_wellFormed hread
  · simp at h

/-- Every filter that is read is well-formed. -/
theorem parse_wellFormed {zones : String → Option Zone} {now : Instant} {filter zoneName : String}
    {expr : Option Expr} (h : parse zones now filter zoneName = .ok expr) :
    ∀ e ∈ expr, e.WellFormed := by
  rintro e rfl
  unfold parse at h
  split at h
  · simp at h
  · obtain ⟨z, -, h⟩ := bind_eq_ok.1 h
    obtain ⟨e', he', heq⟩ := bind_eq_ok.1 h
    obtain rfl := Option.some.inj (Except.ok.inj heq)
    exact parseIn_wellFormed he'

/-- What is found of the filter that a text reads as, the text does read as such a filter. -/
theorem exists_of_parse {α : Type} {zones : String → Option Zone} {now : Instant}
    {filter zoneName : String} {g : Expr → α} {a : α}
    (h : (parse zones now filter zoneName).toOption.map (·.map g) = some (some a)) :
    ∃ e, parse zones now filter zoneName = .ok (some e) ∧ g e = a := by
  obtain ⟨expr, hparse, hexpr⟩ := Option.map_eq_some_iff.1 h
  obtain ⟨e, rfl, hg⟩ := Option.map_eq_some_iff.1 hexpr
  exact ⟨e, toOption_eq_some.1 hparse, hg⟩

end Kanban.Filter
