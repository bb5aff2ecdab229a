import Mathlib.Data.List.Chain
import Kanban.Calendar.ZoneTable
import Kanban.Filter.Statement
import Kanban.Proofs.Filter.WellFormed

/-!
# The text of a statement

The characters of a statement are those of its pieces, one question mark for each value
(`Filter.characters`).  A well-formed condition is a left side, the comparator and the placeholders,
with one blank in between (`Condition.WellFormed.characters_columnPieces`,
`Condition.characters_relationPieces`).  No pair of parentheses in the statement of a filter that
was read is empty, neither that of a group nor that of a list (`Filter.wellFormed_of_parse`): text
is joined only where no such pair arises (`Filter.Solid`).
-/

namespace Kanban.Filter

/-! ### Characters -/

/-- The characters of pieces. -/
def characters (ps : List Piece) : List Char := ps.flatMap (·.render.toList)

@[simp]
theorem characters_nil : characters [] = [] := rfl

@[simp]
theorem characters_text (s : String) (ps : List Piece) :
    characters (.text s :: ps) = s.toList ++ characters ps :=
  List.flatMap_cons

@[simp]
theorem characters_placeholder (b : Bound) (ps : List Piece) :
    characters (.placeholder b :: ps) = '?' :: characters ps := by
  simp [characters, Piece.render]

@[simp]
theorem characters_append (ps qs : List Piece) :
    characters (ps ++ qs) = characters ps ++ characters qs :=
  List.flatMap_append

theorem Expr.toList_statement (nulls : Bool) (e : Expr) :
    (e.statement nulls).toList = characters (e.pieces nulls) := by
  rw [statement, String.toList_join, List.flatMap_map]
  rfl

/-! ### Placeholders -/

/-- The placeholder of one value. -/
def marker (julian : Bool) : List Char := if julian then "julianday(?)".toList else ['?']

/-- The placeholders of several values. -/
def markers (julian : Bool) : Nat → List Char
  | 0 => []
  | 1 => marker julian
  | n + 2 => marker julian ++ ',' :: ' ' :: markers julian (n + 1)

theorem characters_scalar {julian : Bool} {v : Scalar} (h : julian = true → v.kind = .date) :
    characters (v.pieces julian) = marker julian := by
  cases julian with
  | false => cases v <;> simp [Scalar.pieces, marker]
  | true =>
    cases v with
    | date t => simp [Scalar.pieces, marker]
    | _ => cases h rfl

theorem characters_listPieces {julian : Bool} {vs : List Scalar}
    (h : julian = true → ∀ v ∈ vs, v.kind = .date) :
    characters (listPieces julian vs) = markers julian vs.length := by
  induction vs with
  | nil => rfl
  | cons v vs ih =>
    have hv := characters_scalar fun hj => h hj v (by simp)
    have hvs := ih fun hj w hw => h hj w (by simp [hw])
    cases vs with
    | nil => exact hv
    | cons w ws =>
      have hcons : listPieces julian (v :: w :: ws) =
          v.pieces julian ++ .text ", " :: listPieces julian (w :: ws) := rfl
      rw [hcons, characters_append, hv, characters_text, hvs]
      rfl

/-! ### Conditions -/

theorem eq_of_column? {f : Field} {column : String} (h : f.column? = some column) :
    column = "t." ++ f.name := by
  unfold Field.column? at h
  split at h
  · simp at h
  · exact (Option.some.inj h).symm

namespace Condition

/-- The text of what a field is compared with. -/
def operandText (julian : Bool) (c : Condition) : List Char :=
  if c.comparator = .among then '(' :: (markers julian c.operand.values.length ++ [')'])
  else markers julian c.operand.values.length

/-- The text of a column that is compared. -/
def leftText (julian : Bool) (column : String) : List Char :=
  if julian then ("julianday(" ++ column ++ ")").toList else column.toList

/-- The rows that are linked to a task, as far as the column of a label id or a user name. -/
def linkedTable (f : Field) : String :=
  if f = .labels then "SELECT 1 FROM label_tasks lt WHERE lt.task_id = t.id AND lt.label_id"
  else
    "SELECT 1 FROM task_assignees ta JOIN users u ON u.id = ta.user_id " ++
      "WHERE ta.task_id = t.id AND u.username"

variable {c : Condition}

/-- Only behind `in` there is a list. -/
theorem WellFormed.length_values (hc : c.WellFormed) (h : c.comparator ≠ .among) :
    c.operand.values.length = 1 := by
  cases hop : c.operand with
  | single v => rfl
  | several vs => exact absurd (hc.several.2 ⟨vs, hop⟩) h

/-- Only texts are compared with patterns. -/
theorem WellFormed.kind_of_like (hc : c.WellFormed) (h : c.comparator = .like) :
    c.field.kind = .text := by
  have hsupported := hc.supported
  rw [h] at hsupported
  cases hf : c.field <;> simp [hf, supports, Field.isRelation, Field.kind] at hsupported ⊢

theorem WellFormed.characters_columnPieces (hc : c.WellFormed) (column : String) :
    characters (c.columnPieces column) =
      leftText (c.field.kind = .date) column ++
        ' ' :: (c.comparator.statementText.toList ++ ' ' ::
          c.operandText (c.field.kind = .date)) := by
  have hlist : characters (listPieces (c.field.kind = .date) c.operand.values) =
      markers (c.field.kind = .date) c.operand.values.length :=
    characters_listPieces fun hj v hv => (hc.kinds v hv).trans (of_decide_eq_true hj)
  have hleft : (if c.field.kind = .date then "julianday(" ++ column ++ ")" else column).toList =
      leftText (c.field.kind = .date) column := by
    unfold leftText
    by_cases hdate : c.field.kind = .date <;> simp [hdate]
  unfold columnPieces operandText
  cases hcmp : c.comparator with
  | like =>
    have hkind : c.field.kind = .text := hc.kind_of_like hcmp
    have hlength := hc.length_values (by simp [hcmp])
    simp [hkind, hlength, leftText, markers, marker, Comparator.statementText]
  | among =>
    simp only [if_true, characters_text, characters_append, hlist, hleft]
    simp [Comparator.statementText]
  | _ =>
    simp only [reduceCtorEq, if_false, characters_text, hlist, hleft]
    simp [Comparator.statementText, Comparator.text]

theorem relationPieces_eq (c : Condition) :
    c.relationPieces =
      .text (if c.comparator = .notEqual then "NOT EXISTS (" else "EXISTS (") ::
        .text (linkedTable c.field) ::
        (if c.comparator = .among then .text " IN (" ::
          listPieces false c.operand.values ++ [.text ")"]
          else .text " = " :: listPieces false c.operand.values) ++ [.text ")"] := rfl

theorem characters_relationPieces (c : Condition) :
    characters c.relationPieces =
      (if c.comparator = .notEqual then "NOT EXISTS" else "EXISTS").toList ++
        ' ' :: '(' :: ((linkedTable c.field).toList ++
          ' ' :: ((if c.comparator = .among then "IN" else "=").toList ++ ' ' ::
            c.operandText false) ++ [')']) := by
  have hlist : characters (listPieces false c.operand.values) =
      markers false c.operand.values.length :=
    characters_listPieces nofun
  rw [relationPieces_eq, operandText]
  generalize linkedTable c.field = table
  have hopening : (if c.comparator = .notEqual then "NOT EXISTS (" else "EXISTS (").toList =
      (if c.comparator = .notEqual then "NOT EXISTS" else "EXISTS").toList ++ [' ', '('] := by
    split <;> rfl
  by_cases hcmp : c.comparator = .among
  · simp [hcmp, hlist]
  · simp [hcmp, hlist, hopening]

theorem pieces_of_none {nulls : Bool} (h : c.field.column? = none) :
    c.pieces nulls = c.relationPieces := by
  simp [pieces, h]

theorem pieces_of_not_nullable {nulls : Bool} {column : String}
    (hcolumn : c.field.column? = some column) (h : ¬(nulls && c.field.isNullable) = true) :
    c.pieces nulls = c.columnPieces column := by
  simp only [pieces, hcolumn, if_neg h]

/-- The test for a missing value next to the condition. -/
theorem characters_pieces_of_nullable {nulls : Bool} {column : String}
    (hcolumn : c.field.column? = some column) (h : (nulls && c.field.isNullable) = true) :
    characters (c.pieces nulls) =
      '(' :: (characters (c.columnPieces column) ++
        ' ' :: 'O' :: 'R' :: ' ' :: (column.toList ++ " IS NULL".toList) ++ [')']) := by
  simp [pieces, hcolumn, h]

end Condition

/-! ### Empty parentheses -/

/-- Text without an empty pair of parentheses that gets none when it stands between parentheses or
next to text of the same kind. -/
structure Solid (cs : List Char) : Prop where
  ne_nil : cs ≠ []
  filled : cs.IsChain fun a b => ¬(a = '(' ∧ b = ')')
  opens : cs.head? ≠ some ')'
  closes : cs.getLast? ≠ some '('

instance (cs : List Char) : Decidable (Solid cs) :=
  decidable_of_iff (cs ≠ [] ∧ (cs.IsChain fun a b => ¬(a = '(' ∧ b = ')')) ∧ cs.head? ≠ some ')' ∧
    cs.getLast? ≠ some '(')
    ⟨fun ⟨h₁, h₂, h₃, h₄⟩ => ⟨h₁, h₂, h₃, h₄⟩, fun h => ⟨h.ne_nil, h.filled, h.opens, h.closes⟩⟩

namespace Solid

variable {a b : List Char}

theorem append (ha : Solid a) (hb : Solid b) : Solid (a ++ b) where
  ne_nil := by simp [ha.ne_nil]
  filled := List.isChain_append.2 ⟨ha.filled, hb.filled, fun x hx _ _ h => ha.closes (h.1 ▸ hx)⟩
  opens := by simpa [List.head?_append_of_ne_nil a ha.ne_nil] using ha.opens
  closes := by simpa [List.getLast?_append_of_ne_nil a hb.ne_nil] using hb.closes

theorem cons (c : Char) (hc : c ≠ '(' ∧ c ≠ ')') (ha : Solid a) : Solid (c :: a) :=
  append (a := [c]) ⟨by simp, by simp, by simpa using hc.2, by simpa using hc.1⟩ ha

theorem blank (ha : Solid a) : Solid (' ' :: a) := ha.cons ' ' (by decide)

theorem enclosed (ha : Solid a) : Solid ('(' :: (a ++ [')'])) where
  ne_nil := by simp
  filled := by
    refine List.isChain_cons.2 ⟨fun y hy h => ?_,
      List.isChain_append.2 ⟨ha.filled, by simp, fun x hx _ _ h => ?_⟩⟩
    · rw [List.head?_append_of_ne_nil a ha.ne_nil] at hy
      exact ha.opens (h.2 ▸ hy)
    · exact ha.closes (h.1 ▸ hx)
  opens := by simp
  closes := by simp [List.getLast?_cons]

/-- There is no empty pair of parentheses. -/
theorem no_empty_pair (ha : Solid a) : ¬['(', ')'] <:+: a := by
  rintro ⟨x, y, rfl⟩
  have hpair := (List.isChain_append.1 (List.isChain_append.1 ha.filled).1).2.1
  simp at hpair

end Solid

theorem solid_markers (julian : Bool) {n : Nat} (hn : 0 < n) : Solid (markers julian n) := by
  have hmarker : Solid (marker julian) := by cases julian <;> decide
  induction n with
  | zero => omega
  | succ n ih =>
    cases n with
    | zero => exact hmarker
    | succ n => exact hmarker.append ((ih (by omega)).blank.cons ',' (by decide))

namespace Condition.WellFormed

variable {c : Condition}

theorem solid_column {column : String} (hcolumn : c.field.column? = some column) :
    Solid column.toList := by
  obtain rfl := eq_of_column? hcolumn
  cases c.field <;> decide +kernel

variable (hc : c.WellFormed)

include hc

theorem solid_operandText (julian : Bool) : Solid (c.operandText julian) := by
  have hmarkers := solid_markers julian (List.length_pos_iff.2 hc.values)
  unfold operandText
  split
  · exact hmarkers.enclosed
  · exact hmarkers

theorem solid_relationPieces : Solid (characters c.relationPieces) := by
  rw [characters_relationPieces]
  have hopening : Solid (if c.comparator = .notEqual then "NOT EXISTS" else "EXISTS").toList := by
    split <;> decide
  have htable : Solid (linkedTable c.field).toList := by
    unfold linkedTable
    split <;> decide +kernel
  have hcmp : Solid (if c.comparator = .among then "IN" else "=").toList := by split <;> decide
  have hlinked := htable.append (hcmp.append (hc.solid_operandText false).blank).blank
  exact hopening.append hlinked.enclosed.blank

theorem solid_columnPieces {column : String} (hcolumn : c.field.column? = some column) :
    Solid (characters (c.columnPieces column)) := by
  have hleft : Solid (leftText (c.field.kind = .date) column) := by
    unfold leftText
    split
    · rw [String.toList_append, String.toList_append]
      have hcall : Solid "julianday".toList := by decide
      simpa using hcall.append (solid_column hcolumn).enclosed
    · exact solid_column hcolumn
  have hcmp : Solid c.comparator.statementText.toList := by cases c.comparator <;> decide
  rw [hc.characters_columnPieces]
  exact hleft.append (hcmp.append (hc.solid_operandText _).blank).blank

theorem solid_pieces (nulls : Bool) : Solid (characters (c.pieces nulls)) := by
  cases hcolumn : c.field.column? with
  | none =>
    rw [pieces_of_none hcolumn]
    exact hc.solid_relationPieces
  | some column =>
    by_cases h : (nulls && c.field.isNullable) = true
    · rw [characters_pieces_of_nullable hcolumn h]
      refine Solid.enclosed ((hc.solid_columnPieces hcolumn).append ?_)
      have hnull : Solid " IS NULL".toList := by decide
      exact ((((solid_column hcolumn).append hnull).blank.cons 'R' (by decide)).cons 'O'
        (by decide)).blank
    · rw [pieces_of_not_nullable hcolumn h]
      exact hc.solid_columnPieces hcolumn

end Condition.WellFormed

namespace Expr

variable {nulls : Bool}

theorem joined_cons (nulls : Bool) (joiner : String) (e e' : Expr) (es : List Expr) :
    joined nulls joiner (e :: e' :: es) =
      e.pieces nulls ++ .text joiner :: joined nulls joiner (e' :: es) := rfl

/-- Joined by a mark, the parts of a group have no empty pair of parentheses if none of them has
one. -/
theorem solid_joined (joiner : String) (hjoiner : Solid joiner.toList) {es : List Expr}
    (hne : es ≠ []) (hes : ∀ e ∈ es, Solid (characters (e.pieces nulls))) :
    Solid (characters (joined nulls joiner es)) := by
  induction es with
  | nil => exact absurd rfl hne
  | cons e es ih =>
    obtain ⟨he, hes⟩ := List.forall_mem_cons.1 hes
    cases es with
    | nil => exact he
    | cons e' es' =>
      rw [joined_cons, characters_append, characters_text]
      exact he.append (hjoiner.append (ih (by simp) hes))

theorem solid_pieces {e : Expr} (he : e.WellFormed) : Solid (characters (e.pieces nulls)) := by
  induction he with
  | condition hc => exact hc.solid_pieces nulls
  | @all parts hparts _ ih =>
    have hjoined := solid_joined " AND " (by decide) (List.ne_nil_of_length_pos (by omega)) ih
    simpa [pieces] using hjoined.enclosed
  | @any parts hparts _ ih =>
    have hjoined := solid_joined " OR " (by decide) (List.ne_nil_of_length_pos (by omega)) ih
    simpa [pieces] using hjoined.enclosed

end Expr

/-- A filter that is read is well-formed: every group has at least two parts, and every condition a
comparator that its field supports and values of the kind of the field, one value or, exactly behind
`in`, a list that is not empty and whose items are single values.  So its statement, with or without
missing values, has no empty pair of parentheses. -/
theorem wellFormed_of_parse {zones : String → Option Zone} {now : Instant}
    {filter zoneName : String} {e : Expr} (h : parse zones now filter zoneName = .ok (some e)) :
    e.WellFormed ∧ ∀ nulls, ¬['(', ')'] <:+: (e.statement nulls).toList := by
  have he := parse_wellFormed h e rfl
  refine ⟨he, fun nulls => ?_⟩
  rw [Expr.toList_statement]
  exact (Expr.solid_pieces he).no_empty_pair

/-- A list of dates, a group inside a group, and a value that is an empty pair of parentheses. -/
theorem wellFormed_of_parse_nested :
    ∃ e, parse Zone.tabulated? default
      "due_date in 2024-03-01, now && (labels != 2 || title like '()')" "Europe/Berlin" =
        .ok (some e) ∧
      e.statement true =
        "((julianday(t.due_date) IN (julianday(?), julianday(?)) OR t.due_date IS NULL) AND " ++
          "(NOT EXISTS (SELECT 1 FROM label_tasks lt WHERE lt.task_id = t.id AND " ++
          "lt.label_id = ?) OR t.title LIKE ?))" ∧
      e.WellFormed ∧ ∀ nulls, ¬['(', ')'] <:+: (e.statement nulls).toList := by
  have hread : (parse Zone.tabulated? default
      "due_date in 2024-03-01, now && (labels != 2 || title like '()')"
      "Europe/Berlin").toOption.map (·.map (·.statement true)) = some (some
        ("((julianday(t.due_date) IN (julianday(?), julianday(?)) OR t.due_date IS NULL) AND " ++
          "(NOT EXISTS (SELECT 1 FROM label_tasks lt WHERE lt.task_id = t.id AND " ++
          "lt.label_id = ?) OR t.title LIKE ?))")) := by
    decide +kernel
  obtain ⟨e, he, hstatement⟩ := exists_of_parse hread
  exact ⟨e, he, hstatement, wellFormed_of_parse he⟩

end Kanban.Filter
