import Kanban.Proofs.Filter.StatementText

/-!
# The shape of a statement

The shape of a filter is the filter with the same value in all places for values of one kind
(`Expr.shape`); two filters differ in their values alone if they have one shape.  Their statements
have the same text (`Expr.WellFormed.characters_shape`).
-/

namespace Kanban.Filter

/-! ### Shapes -/

/-- The same value for each kind. -/
def Scalar.sample : Field.Kind → Scalar
  | .int => .int 0
  | .double => .double default
  | .bool => .bool false
  | .text => .text ""
  | .date => .date default

/-- The operand with one value in all places. -/
def Operand.fill (v : Scalar) : Operand → Operand
  | single _ => single v
  | several vs => several (vs.map fun _ => v)

/-- The condition without its values: two conditions have one shape if they have the same field and
comparator and compare with the same number of values. -/
def Condition.shape (c : Condition) : Condition :=
  ⟨c.field, c.comparator, c.operand.fill (.sample c.field.kind)⟩

namespace Expr

mutual

/-- The expression without its values. -/
def shape : Expr → Expr
  | condition c => condition c.shape
  | all parts => all (shapes parts)
  | any parts => any (shapes parts)

def shapes : List Expr → List Expr
  | [] => []
  | e :: es => e.shape :: shapes es

end

end Expr

theorem Operand.length_values_fill (v : Scalar) (o : Operand) :
    (o.fill v).values.length = o.values.length := by
  cases o <;> simp [fill, values]

namespace Condition

variable {c c' : Condition}

theorem length_values_shape (c : Condition) :
    c.shape.operand.values.length = c.operand.values.length :=
  Operand.length_values_fill _ _

theorem WellFormed.shape (hc : c.WellFormed) : c.shape.WellFormed where
  supported := hc.supported
  kinds := by
    have hkind : (Scalar.sample c.field.kind).kind = c.field.kind := by cases c.field.kind <;> rfl
    cases hop : c.operand <;> simp_all [Condition.shape, Operand.fill, Operand.values]
  several := by
    refine hc.several.trans ?_
    cases hop : c.operand <;> simp [Condition.shape, hop, Operand.fill]
  values := by
    rw [← List.length_pos_iff, length_values_shape, List.length_pos_iff]
    exact hc.values

/-- Conditions with the same field, comparator and number of values have one shape. -/
theorem WellFormed.shape_eq_of_length (hc : c.WellFormed) (hc' : c'.WellFormed)
    (hfield : c.field = c'.field) (hcmp : c.comparator = c'.comparator)
    (hlength : c.operand.values.length = c'.operand.values.length) :
    c.shape = c'.shape := by
  have hseveral : (∃ vs, c.operand = .several vs) ↔ ∃ vs, c'.operand = .several vs := by
    rw [← hc.several, ← hc'.several, hcmp]
  unfold Condition.shape
  rw [hfield, hcmp]
  cases hop : c.operand <;> cases hop' : c'.operand <;>
    simp_all [Operand.fill, Operand.values, List.map_const']

theorem operandText_shape (julian : Bool) (c : Condition) :
    c.shape.operandText julian = c.operandText julian := by
  rw [operandText, operandText, length_values_shape]
  rfl

/-- The text of a condition does not depend on its values. -/
theorem WellFormed.characters_shape (hc : c.WellFormed) (nulls : Bool) :
    characters (c.shape.pieces nulls) = characters (c.pieces nulls) := by
  have hfield : c.shape.field = c.field := rfl
  have hcmp : c.shape.comparator = c.comparator := rfl
  have hcolumns : ∀ column, characters (c.shape.columnPieces column) =
      characters (c.columnPieces column) := by
    intro column
    rw [hc.shape.characters_columnPieces, hc.characters_columnPieces,
      operandText_shape, hfield, hcmp]
  cases hcolumn : c.field.column? with
  | none =>
    rw [pieces_of_none (c := c.shape) hcolumn, pieces_of_none hcolumn, characters_relationPieces,
      characters_relationPieces, operandText_shape, hfield, hcmp]
  | some column =>
    by_cases h : (nulls && c.field.isNullable) = true
    · rw [characters_pieces_of_nullable (c := c.shape) hcolumn h,
        characters_pieces_of_nullable hcolumn h, hcolumns]
    · rw [pieces_of_not_nullable (c := c.shape) hcolumn h,
        pieces_of_not_nullable hcolumn h, hcolumns]

end Condition

namespace Expr

theorem characters_joined_shapes {nulls : Bool} (joiner : String) {es : List Expr}
    (hes : ∀ e ∈ es, characters (e.shape.pieces nulls) = characters (e.pieces nulls)) :
    characters (joined nulls joiner (shapes es)) = characters (joined nulls joiner es) := by
  induction es with
  | nil => rfl
  | cons e es ih =>
    obtain ⟨he, hes⟩ := List.forall_mem_cons.1 hes
    cases es with
    | nil => exact he
    | cons e' es =>
      have ih := ih hes
      rw [shapes] at ih
      rw [shapes, shapes, joined_cons, joined_cons, characters_append, characters_append,
        characters_text, characters_text, he, ih]

/-- The text of a statement does not depend on the values of the filter. -/
theorem WellFormed.characters_shape {e : Expr} (he : e.WellFormed) (nulls : Bool) :
    characters (e.shape.pieces nulls) = characters (e.pieces nulls) := by
  induction he with
  | condition hc => exact hc.characters_shape nulls
  | all _ _ ih => simp [shape, pieces, characters_joined_shapes " AND " ih]
  | any _ _ ih => simp [shape, pieces, characters_joined_shapes " OR " ih]

end Expr

end Kanban.Filter
