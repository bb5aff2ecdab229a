import Kanban.Proofs.Filter.StatementText

/-!
# The values of a statement

The statement of a filter has one placeholder for each value of its conditions, and the values are
bound to the placeholders from left to right (`Expr.WellFormed.carries_pieces`).  No text around the
placeholders has a question mark, so counting the question marks of a statement counts its values
(`Carries.count`).
-/

namespace Kanban.Filter

/-- The values are those of the placeholders from left to right, and no text has a question mark. -/
inductive Carries : List Piece → List Bound → Prop where
  | nil : Carries [] []
  | text {s : String} {ps : List Piece} {bs : List Bound} (hs : '?' ∉ s.toList)
      (h : Carries ps bs) :
    Carries (.text s :: ps) bs
  | placeholder {b : Bound} {ps : List Piece} {bs : List Bound} (h : Carries ps bs) :
    Carries (.placeholder b :: ps) (b :: bs)

namespace Carries

variable {ps qs : List Piece} {bs cs : List Bound}

theorem append (h : Carries ps bs) (h' : Carries qs cs) : Carries (ps ++ qs) (bs ++ cs) := by
  induction h with
  | nil => exact h'
  | text hs _ ih => exact .text hs ih
  | placeholder _ ih => exact .placeholder ih

theorem append_text {s : String} (h : Carries ps bs) (hs : '?' ∉ s.toList) :
    Carries (ps ++ [.text s]) bs := by
  simpa using h.append (.text hs .nil)

theorem count (h : Carries ps bs) : (characters ps).count '?' = bs.length := by
  induction h with
  | nil => rfl
  | text hs _ ih => simp [ih, List.count_eq_zero.2 hs]
  | placeholder _ ih => simp [ih]

theorem filterMap_eq (h : Carries ps bs) :
    (ps.filterMap fun
      | .placeholder b => some b
      | .text _ => none) = bs := by
  induction h with
  | nil => rfl
  | text _ _ ih => exact ih
  | placeholder _ ih => simp [ih]

end Carries

theorem carries_listPieces (julian : Bool) (vs : List Scalar) :
    Carries (listPieces julian vs) (vs.map .value) := by
  have hscalar : ∀ v : Scalar, Carries (v.pieces julian) [.value v] := by
    intro v
    have hopening : '?' ∉ "julianday(".toList := by decide
    have hclosing : '?' ∉ ")".toList := by decide
    cases v with
    | date t =>
      cases julian with
      | false => exact .placeholder .nil
      | true => exact .text hopening (.placeholder (.text hclosing .nil))
    | _ => exact .placeholder .nil
  induction vs with
  | nil => exact .nil
  | cons v vs ih =>
    cases vs with
    | nil => exact hscalar v
    | cons w ws => exact (hscalar v).append (.text (by decide) ih)

namespace Condition

variable {c c' : Condition}

/-- The values that a condition binds; a text to look for becomes a pattern. -/
def bounds (c : Condition) : List Bound :=
  c.operand.values.map fun v =>
    match c.comparator, v with
    | .like, .text s => .pattern (containing s)
    | _, v => .value v

theorem bounds_of_ne_like (h : c.comparator ≠ .like) : c.bounds = c.operand.values.map .value := by
  unfold bounds
  congr 1
  funext v
  split
  · contradiction
  · rfl

theorem column_no_mark {f : Field} {column : String} (h : f.column? = some column) :
    '?' ∉ column.toList := by
  obtain rfl := eq_of_column? h
  cases f <;> decide +kernel

theorem WellFormed.carries_columnPieces (hc : c.WellFormed) {column : String}
    (hcolumn : c.field.column? = some column) :
    Carries (c.columnPieces column) c.bounds := by
  have hleft : '?' ∉ (if c.field.kind = .date then "julianday(" ++ column ++ ")"
      else column).toList := by
    have hmark := column_no_mark hcolumn
    split
    · simpa using hmark
    · exact hmark
  have hlist : ∀ julian, Carries (listPieces julian c.operand.values)
      (c.operand.values.map .value) :=
    fun julian => carries_listPieces julian _
  unfold columnPieces
  cases hcmp : c.comparator with
  | like =>
    obtain ⟨s, hs⟩ : ∃ s, c.operand = .single (.text s) := by
      have hkinds := hc.kinds
      cases hop : c.operand with
      | single v =>
        have hkind : v.kind = .text :=
          (hkinds v (by simp [hop, Operand.values])).trans (hc.kind_of_like hcmp)
        cases v <;> simp [Scalar.kind] at hkind
        exact ⟨_, rfl⟩
      | several vs => simpa [hcmp] using hc.several.2 ⟨vs, hop⟩
    have hbounds : c.bounds = [.pattern (containing s)] := by
      simp [bounds, hs, hcmp, Operand.values]
    rw [hbounds, hs]
    exact .text (by simpa using hleft) (.text (by decide) (.placeholder .nil))
  | among =>
    rw [bounds_of_ne_like (by simp [hcmp])]
    exact .text (by simpa using hleft) (.text (by decide) ((hlist _).append_text (by decide)))
  | _ =>
    rw [bounds_of_ne_like (by simp [hcmp])]
    exact .text (by simpa using hleft) (.text (by decide) (hlist _))

theorem carries_relationPieces (h : c.comparator ≠ .like) : Carries c.relationPieces c.bounds := by
  have hopening : '?' ∉ (if c.comparator = .notEqual then "NOT EXISTS ("
      else "EXISTS (").toList := by
    split <;> decide
  have htable : '?' ∉ (linkedTable c.field).toList := by
    unfold linkedTable
    split <;> decide +kernel
  have hlist := carries_listPieces false c.operand.values
  rw [relationPieces_eq, bounds_of_ne_like h]
  refine .text hopening (.text htable (Carries.append_text ?_ (by decide)))
  split
  · exact .text (by decide) (hlist.append_text (by decide))
  · exact .text (by decide) hlist

/-- No relation is compared with a pattern. -/
theorem WellFormed.ne_like (hc : c.WellFormed) (h : c.field.column? = none) :
    c.comparator ≠ .like := by
  intro hcmp
  have hkind := hc.kind_of_like hcmp
  have hsupported := hc.supported
  rw [hcmp] at hsupported
  cases hf : c.field <;> simp [hf, Field.column?, Field.isRelation, supports] at h hsupported

theorem WellFormed.carries_pieces (hc : c.WellFormed) (nulls : Bool) :
    Carries (c.pieces nulls) c.bounds := by
  unfold pieces
  cases hcolumn : c.field.column? with
  | none => exact carries_relationPieces (hc.ne_like hcolumn)
  | some column =>
    have hpieces := hc.carries_columnPieces hcolumn
    simp only
    split
    · refine .text (by decide) (hpieces.append_text ?_)
      simpa using column_no_mark hcolumn
    · exact hpieces

end Condition

namespace Expr

variable {nulls : Bool}

theorem carries_joined {joiner : String} (hjoiner : '?' ∉ joiner.toList) {es : List Expr}
    (hes : ∀ e ∈ es, Carries (e.pieces nulls) (e.conditions.flatMap Condition.bounds)) :
    Carries (joined nulls joiner es) ((conditionsOf es).flatMap Condition.bounds) := by
  induction es with
  | nil => exact .nil
  | cons e es ih =>
    obtain ⟨he, hes⟩ := List.forall_mem_cons.1 hes
    rw [conditionsOf, List.flatMap_append]
    cases es with
    | nil => simpa [joined, conditionsOf] using he
    | cons e' es => exact he.append (.text hjoiner (ih hes))

/-- The statement of a filter carries the values of its conditions in their order. -/
theorem WellFormed.carries_pieces {e : Expr} (he : e.WellFormed) (nulls : Bool) :
    Carries (e.pieces nulls) (e.conditions.flatMap Condition.bounds) := by
  induction he with
  | condition hc => simpa [pieces, conditions] using hc.carries_pieces nulls
  | all _ _ ih => exact .text (by decide) ((carries_joined (by decide) ih).append_text (by decide))
  | any _ _ ih => exact .text (by decide) ((carries_joined (by decide) ih).append_text (by decide))

end Expr

end Kanban.Filter
