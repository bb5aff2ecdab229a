import Kanban.Proofs.Filter.StatementReader
import Kanban.Proofs.Filter.StatementText

/-!
# The groups of a statement

The statement of a filter reads as the groups of the filter (`Expr.WellFormed.reads`): a conjunction
or disjunction is in parentheses, and so is the disjunction of a condition and the test for a
missing value.  The text of a condition is one test (`Condition.WellFormed.flat_comparison`), since
the only word in it that joins tests stands inside the parentheses of linked rows.
-/

namespace Kanban.Filter

open Reader (Token Tree tokens Flat Reads depthAfter)

/-! ### Tests -/

/-- The text of a condition without the test for a missing value. -/
def Condition.comparison (c : Condition) : List Char :=
  match c.field.column? with
  | none => characters c.relationPieces
  | some column => characters (c.columnPieces column)

/-- The test for a missing value. -/
def nullTest (column : String) : List Char := column.toList ++ " IS NULL".toList

/-- The groups of a condition: its test, and the one for a missing value if this matches, too. -/
def Condition.grouping (nulls : Bool) (c : Condition) : Tree :=
  match c.field.column? with
  | none => .test (tokens c.comparison)
  | some column =>
    if nulls && c.field.isNullable
      then .any [.test (tokens c.comparison), .test (tokens (nullTest column))]
    else .test (tokens c.comparison)

theorem flat_markers (julian : Bool) (n : Nat) : Flat (tokens (markers julian n)) := by
  have hone : Flat (tokens (marker julian)) := by cases julian <;> decide
  have hmore : Flat (tokens (marker julian ++ [','])) := by cases julian <;> decide
  induction n with
  | zero => rfl
  | succ n ih =>
    cases n with
    | zero => exact hone
    | succ n =>
      have hsplit : markers julian (n + 2) =
          (marker julian ++ [',']) ++ ' ' :: markers julian (n + 1) := by
        simp [markers]
      rw [hsplit, Reader.tokens_append_blank]
      exact hmore.append ih

namespace Condition

variable {c c' : Condition}

theorem flat_operandText (julian : Bool) (c : Condition) :
    Flat (tokens (c.operandText julian)) := by
  have hmarkers := flat_markers julian c.operand.values.length
  unfold operandText
  split
  · rw [Reader.tokens_enclosed]
    exact hmarkers.enclosed
  · exact hmarkers

/-- The tokens of a column that is compared. -/
def leftTokens (f : Field) (column : String) : List Token :=
  if f.kind = .date then [.word "julianday".toList, .opening, .word column.toList, .closing]
    else [.word column.toList]

theorem tokens_column {f : Field} {column : String} (h : f.column? = some column) :
    tokens column.toList = [.word column.toList] := by
  obtain rfl := eq_of_column? h
  cases f <;> decide +kernel

theorem ofWord?_column {f : Field} {column : String} (h : f.column? = some column) :
    Reader.Joiner.ofWord? column.toList = none := by
  obtain rfl := eq_of_column? h
  cases f <;> decide +kernel

theorem tokens_leftText {f : Field} {column : String} (h : f.column? = some column) :
    tokens (leftText (f.kind = .date) column) = leftTokens f column := by
  unfold leftText leftTokens
  by_cases hdate : f.kind = .date
  · have hsplit : ("julianday(" ++ column ++ ")").toList =
      "julianday".toList ++ '(' :: (column.toList ++ [')']) := by simp
    have hcall : tokens "julianday".toList = [.word "julianday".toList] := by decide
    simp only [hdate, decide_true, if_true]
    rw [hsplit, Reader.tokens_append_opening, Reader.tokens_append_closing, hcall, tokens_column h]
    rfl
  · simp [hdate, tokens_column h]

theorem WellFormed.tokens_columnPieces (hc : c.WellFormed) {column : String}
    (hcolumn : c.field.column? = some column) :
    tokens (characters (c.columnPieces column)) =
      leftTokens c.field column ++
        .word c.comparator.statementText.toList ::
          tokens (c.operandText (c.field.kind = .date)) := by
  have hcmp : tokens c.comparator.statementText.toList =
      [.word c.comparator.statementText.toList] := by
    cases c.comparator <;> decide
  rw [hc.characters_columnPieces, Reader.tokens_append_blank, Reader.tokens_append_blank,
    tokens_leftText hcolumn, hcmp]
  rfl

/-- The tokens in front of the rows that are linked. -/
def quantifier (c : Condition) : List Token :=
  if c.comparator = .notEqual then [.word "NOT".toList, .word "EXISTS".toList]
    else [.word "EXISTS".toList]

theorem tokens_relationPieces (c : Condition) :
    tokens (characters c.relationPieces) =
      c.quantifier ++ .opening :: (tokens (linkedTable c.field).toList ++
        .word (if c.comparator = .among then "IN" else "=").toList ::
          tokens (c.operandText false) ++ [.closing]) := by
  have hquantifier : tokens (if c.comparator = .notEqual then "NOT EXISTS" else "EXISTS").toList =
      c.quantifier := by
    unfold quantifier
    split <;> decide
  have hcmp : tokens (if c.comparator = .among then "IN" else "=").toList =
      [.word (if c.comparator = .among then "IN" else "=").toList] := by
    split <;> decide
  rw [characters_relationPieces, Reader.tokens_append_blank, hquantifier, Reader.tokens_enclosed,
    Reader.tokens_append_blank, Reader.tokens_append_blank, hcmp]
  rfl

theorem comparison_of_none (h : c.field.column? = none) :
    c.comparison = characters c.relationPieces := by
  simp [comparison, h]

theorem comparison_of_some {column : String} (h : c.field.column? = some column) :
    c.comparison = characters (c.columnPieces column) := by
  simp [comparison, h]

theorem flat_leftTokens {f : Field} {column : String} (h : f.column? = some column) :
    Flat (leftTokens f column) := by
  have hcall : Flat [.word "julianday".toList] := by decide
  have hcolumn : Flat [.word column.toList] := .word (ofWord?_column h)
  unfold leftTokens
  split
  · exact hcall.append hcolumn.enclosed
  · exact hcolumn

theorem flat_comparator (cmp : Comparator) :
    Flat [.word cmp.statementText.toList] := by cases cmp <;> decide

/-- The text of a condition is a test. -/
theorem WellFormed.flat_comparison (hc : c.WellFormed) : Flat (tokens c.comparison) := by
  cases hcolumn : c.field.column? with
  | none =>
    have hquantifier : Flat c.quantifier := by
      unfold quantifier
      split <;> decide
    -- Inside the parentheses no word ends the test.
    have htable : depthAfter 1 (tokens (linkedTable c.field).toList) = some 1 := by
      unfold linkedTable
      split <;> decide +kernel
    have hoperand : depthAfter 1 (tokens (c.operandText false)) = some 1 :=
      Reader.depthAfter_succ (flat_operandText false c)
    rw [comparison_of_none hcolumn, tokens_relationPieces]
    refine hquantifier.append ?_
    show depthAfter 1 _ = some 0
    rw [List.append_assoc, Reader.depthAfter_append htable]
    exact Reader.depthAfter_append hoperand [.closing]
  | some column =>
    rw [comparison_of_some hcolumn, hc.tokens_columnPieces hcolumn]
    exact (flat_leftTokens hcolumn).append ((flat_comparator _).append (flat_operandText _ c))

/-- A test begins with a word. -/
theorem WellFormed.exists_tokens_comparison (hc : c.WellFormed) :
    ∃ w ts, tokens c.comparison = .word w :: ts := by
  cases hcolumn : c.field.column? with
  | none =>
    rw [comparison_of_none hcolumn, tokens_relationPieces]
    unfold quantifier
    split <;> exact ⟨_, _, rfl⟩
  | some column =>
    rw [comparison_of_some hcolumn, hc.tokens_columnPieces hcolumn]
    unfold leftTokens
    split <;> exact ⟨_, _, rfl⟩

theorem WellFormed.reads_comparison (hc : c.WellFormed) :
    Reads (tokens c.comparison) (.test (tokens c.comparison)) := by
  obtain ⟨w, ts, h⟩ := hc.exists_tokens_comparison
  have hflat := hc.flat_comparison
  rw [h] at hflat ⊢
  exact Reader.reads_test hflat

theorem tokens_nullTest {f : Field} {column : String} (h : f.column? = some column) :
    tokens (nullTest column) = [.word column.toList, .word "IS".toList, .word "NULL".toList] := by
  have hsplit : nullTest column = column.toList ++ ' ' :: "IS NULL".toList := rfl
  have hnull : tokens "IS NULL".toList = [.word "IS".toList, .word "NULL".toList] := by decide
  rw [hsplit, Reader.tokens_append_blank, tokens_column h, hnull]
  rfl

theorem reads_nullTest {f : Field} {column : String} (h : f.column? = some column) :
    Reads (tokens (nullTest column)) (.test (tokens (nullTest column))) := by
  have hnull : Flat [.word "IS".toList, .word "NULL".toList] := by decide
  rw [tokens_nullTest h]
  exact Reader.reads_test ((Flat.word (ofWord?_column h)).append hnull)

/-- A condition reads as its test, next to the one for a missing value if this matches, too. -/
theorem WellFormed.reads (hc : c.WellFormed) (nulls : Bool) :
    Reads (tokens (characters (c.pieces nulls))) (c.grouping nulls) := by
  have hcomparison := hc.reads_comparison
  unfold grouping
  cases hcolumn : c.field.column? with
  | none =>
    rw [pieces_of_none hcolumn, ← comparison_of_none hcolumn]
    exact hcomparison
  | some column =>
    by_cases h : (nulls && c.field.isNullable) = true
    · have hpieces : characters (c.pieces nulls) =
          '(' :: (c.comparison ++ ' ' :: ("OR".toList ++ ' ' :: nullTest column) ++ [')']) := by
        rw [characters_pieces_of_nullable hcolumn h, comparison_of_some hcolumn]
        simp [nullTest]
      have hor : tokens "OR".toList = [.word "OR".toList] := by decide
      have hgroup := @Reader.reads_group .or
        [(tokens c.comparison, .test (tokens c.comparison)),
          (tokens (nullTest column), .test (tokens (nullTest column)))] (by simp)
        (List.forall_mem_cons.2 ⟨hcomparison, List.forall_mem_singleton.2 (reads_nullTest hcolumn)⟩)
      rw [hpieces, Reader.tokens_enclosed, Reader.tokens_append_blank,
        Reader.tokens_append_blank, hor]
      simp only [if_pos h]
      exact hgroup
    · rw [pieces_of_not_nullable hcolumn h, ← comparison_of_some hcolumn]
      simpa only [if_neg h] using hcomparison

end Condition

/-! ### Groups -/

namespace Expr

mutual

/-- The groups of an expression. -/
def grouping (nulls : Bool) : Expr → Tree
  | condition c => c.grouping nulls
  | all parts => .all (groupings nulls parts)
  | any parts => .any (groupings nulls parts)

def groupings (nulls : Bool) : List Expr → List Tree
  | [] => []
  | e :: es => e.grouping nulls :: groupings nulls es

end

theorem groupings_eq_map (nulls : Bool) (es : List Expr) :
    groupings nulls es = es.map (grouping nulls) := by
  induction es with
  | nil => rfl
  | cons e es ih => rw [groupings, ih, List.map_cons]

variable {nulls : Bool}

theorem tokens_joined (j : Reader.Joiner) {joiner : String}
    (hjoiner : joiner.toList = ' ' :: (j.text ++ [' '])) (es : List Expr) :
    tokens (characters (joined nulls joiner es)) =
      Reader.joined j (es.map fun e => tokens (characters (e.pieces nulls))) := by
  have hword : tokens j.text = [.word j.text] := by cases j <;> decide
  induction es with
  | nil => rfl
  | cons e es ih =>
    cases es with
    | nil => rfl
    | cons e' es =>
      have hsplit : characters (joined nulls joiner (e :: e' :: es)) =
          characters (e.pieces nulls) ++ ' ' ::
            (j.text ++ ' ' :: characters (joined nulls joiner (e' :: es))) := by
        rw [joined_cons, characters_append, characters_text, hjoiner]
        simp
      rw [hsplit, Reader.tokens_append_blank, Reader.tokens_append_blank, hword, ih]
      rfl

theorem reads_parts (j : Reader.Joiner) {joiner : String}
    (hjoiner : joiner.toList = ' ' :: (j.text ++ [' '])) {es : List Expr} (hlength : 2 ≤ es.length)
    (hes : ∀ e ∈ es, Reads (tokens (characters (e.pieces nulls))) (e.grouping nulls)) :
    Reads (tokens (characters (.text "(" :: joined nulls joiner es ++ [.text ")"])))
      (j.tree (groupings nulls es)) := by
  have hgroup := @Reader.reads_group j
    (es.map fun e => (tokens (characters (e.pieces nulls)), e.grouping nulls))
      (by simpa using hlength)
    (List.forall_mem_map.2 hes)
  have hcharacters : characters (.text "(" :: joined nulls joiner es ++ [.text ")"]) =
      '(' :: (characters (joined nulls joiner es) ++ [')']) := by simp
  rw [hcharacters, Reader.tokens_enclosed, tokens_joined j hjoiner, groupings_eq_map]
  simpa [Function.comp_def] using hgroup

/-- The statement of a filter reads as the groups of the filter. -/
theorem WellFormed.reads {e : Expr} (he : e.WellFormed) (nulls : Bool) :
    Reads (tokens (characters (e.pieces nulls))) (e.grouping nulls) := by
  induction he with
  | condition hc => exact hc.reads nulls
  | all hlength _ ih => exact reads_parts .and rfl hlength ih
  | any hlength _ ih => exact reads_parts .or rfl hlength ih

end Expr

end Kanban.Filter
