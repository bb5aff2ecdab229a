import Kanban.Calendar.ZoneTable
import Kanban.Proofs.Filter.StatementBounds
import Kanban.Proofs.Filter.StatementGrouping
import Kanban.Proofs.Filter.StatementShape
import Kanban.Proofs.Filter.Words

/-!
# Statements tell shapes apart

Well-formed filters with the same statement have the same shape
(`Expr.WellFormed.statement_eq_iff`).  The statement reads as the groups of the filter, and each
test tells the shape of its condition (`Condition.WellFormed.shape_eq`): the words in it tell the
field and the comparator, and the question marks the number of values.  The test for a missing value
has none, so a condition next to it is told from a disjunction of conditions.
-/

namespace Kanban.Filter

open Reader (Token Tree tokens)

/-! ### Conditions -/

theorem field_eq_of_column? {f f' : Field} {column : String} (h : f.column? = some column)
    (h' : f'.column? = some column) : f = f' := by
  have hname : f.name = f'.name := by simpa using (eq_of_column? h).symm.trans (eq_of_column? h')
  have hf : Field.ofName? f.name.toList = some f := ofName?_of_sameWord (sameWord_self _)
  have hf' : Field.ofName? f'.name.toList = some f' := ofName?_of_sameWord (sameWord_self _)
  rw [hname, hf'] at hf
  exact (Option.some.inj hf).symm

theorem comparator_eq_of_statementText {a b : Comparator}
    (h : a.statementText.toList = b.statementText.toList) :
    a = b := by
  cases a <;> cases b <;> first | rfl | exact absurd h (by decide)

namespace Condition

variable {c c' : Condition}

theorem length_bounds (c : Condition) : c.bounds.length = c.operand.values.length :=
  List.length_map _

/-- A test has one question mark for each value. -/
theorem WellFormed.count_comparison (hc : c.WellFormed) :
    c.comparison.count '?' = c.operand.values.length := by
  rw [← length_bounds]
  cases hcolumn : c.field.column? with
  | none =>
    rw [comparison_of_none hcolumn]
    exact (carries_relationPieces (hc.ne_like hcolumn)).count
  | some column =>
    rw [comparison_of_some hcolumn]
    exact (hc.carries_columnPieces hcolumn).count

theorem count_tokens (cs : List Char) : ((tokens cs).flatMap Token.text).count '?' = cs.count '?' :=
  Reader.count_tokensFrom (by decide) [] cs

/-- A column and the word behind it tell the field and the word. -/
theorem leftTokens_inj {f f' : Field} {column column' : String} (h : f.column? = some column)
    (h' : f'.column? = some column') {w w' : List Char} {ts ts' : List Token}
    (heq : leftTokens f column ++ .word w :: ts = leftTokens f' column' ++ .word w' :: ts') :
    f = f' ∧ w = w' := by
  have hcall : ∀ {f column}, Field.column? f = some column → "julianday" ≠ column := by
    intro f column h hcolumn
    simpa [eq_of_column? h] using congrArg String.toList hcolumn
  unfold leftTokens at heq
  by_cases hdate : f.kind = .date <;> by_cases hdate' : f'.kind = .date <;>
    simp only [hdate, hdate', if_true, if_false, List.cons_append, List.nil_append,
      List.cons.injEq, Token.word.injEq, String.toList_inj, true_and] at heq
  · obtain ⟨rfl, hw, -⟩ := heq
    exact ⟨field_eq_of_column? h h', hw⟩
  · exact absurd heq.1 (hcall h')
  · exact absurd heq.1.symm (hcall h)
  · obtain ⟨rfl, hw, -⟩ := heq
    exact ⟨field_eq_of_column? h h', hw⟩

/-- The linked rows tell the field. -/
theorem linkedTable_inj {f f' : Field} (h : f.column? = none) (h' : f'.column? = none)
    {ts ts' : List Token}
    (heq : tokens (linkedTable f).toList ++ ts = tokens (linkedTable f').toList ++ ts') :
    f = f' := by
  have hlinked : ∀ {f : Field}, f.column? = none → f = .labels ∨ f = .assignees := by
    intro f h
    cases f <;> simp [Field.column?, Field.isRelation] at h ⊢
  -- The tables have different names, which are the fourth words.
  have hlabels : (tokens (linkedTable .labels).toList)[3]? =
      some (.word "label_tasks".toList) := by decide +kernel
  have hassignees : (tokens (linkedTable .assignees).toList)[3]? =
      some (.word "task_assignees".toList) := by
    decide +kernel
  have hfourth : ∀ {us ts : List Token} {t : Token}, us[3]? = some t →
      (us ++ ts)[3]? = some t := fun h =>
    (List.getElem?_append_left (List.getElem?_eq_some_iff.1 h).1).trans h
  have hword := congrArg (·[3]?) heq
  rcases hlinked h with rfl | rfl <;> rcases hlinked h' with rfl | rfl
  · rfl
  · rw [hfourth hlabels, hfourth hassignees] at hword
    simp at hword
  · rw [hfourth hlabels, hfourth hassignees] at hword
    simp at hword
  · rfl

/-- The first word of a test: a quantifier in front of linked rows, a function or a column. -/
theorem WellFormed.head?_comparison (hc : c.WellFormed) :
    (tokens c.comparison).head? =
      match c.field.column? with
      | none => some (.word (if c.comparator = .notEqual then "NOT" else "EXISTS").toList)
      | some column =>
        some (.word (if c.field.kind = .date then "julianday" else column).toList) := by
  cases hcolumn : c.field.column? with
  | none =>
    rw [comparison_of_none hcolumn, tokens_relationPieces]
    unfold quantifier
    split <;> rfl
  | some column =>
    rw [comparison_of_some hcolumn, hc.tokens_columnPieces hcolumn]
    unfold leftTokens
    split <;> rfl

theorem supports_of_relation {f : Field} {cmp : Comparator} (h : f.column? = none)
    (hsupports : supports f cmp = true) :
    cmp = .equal ∨ cmp = .notEqual ∨ cmp = .among := by
  cases f <;> simp [Field.column?, Field.isRelation, supports] at h hsupports ⊢ <;> tauto

/-- The test of linked rows tells the field and the comparator. -/
theorem relation_inj (hcolumn : c.field.column? = none) (hcolumn' : c'.field.column? = none)
    (hsupported : supports c.field c.comparator = true)
    (hsupported' : supports c'.field c'.comparator = true)
    (h : tokens (characters c.relationPieces) = tokens (characters c'.relationPieces)) :
    c.field = c'.field ∧ c.comparator = c'.comparator := by
  rw [tokens_relationPieces, tokens_relationPieces] at h
  have hnot : c.comparator = .notEqual ↔ c'.comparator = .notEqual := by
    have hhead := congrArg List.head? h
    unfold quantifier at hhead
    by_cases hcmp : c.comparator = .notEqual <;> by_cases hcmp' : c'.comparator = .notEqual <;>
      simp [hcmp, hcmp'] at hhead ⊢
  have hquantifier : c.quantifier = c'.quantifier := by simp only [quantifier, hnot]
  rw [hquantifier, List.append_cancel_left_eq, List.cons.injEq, List.append_assoc,
    List.append_assoc] at h
  have hfield := linkedTable_inj hcolumn hcolumn' h.2
  rw [hfield, List.append_cancel_left_eq, List.cons_append, List.cons_append, List.cons.injEq,
    Token.word.injEq] at h
  have hamong : c.comparator = .among ↔ c'.comparator = .among := by
    have hword := h.2.1
    by_cases hcmp : c.comparator = .among <;> by_cases hcmp' : c'.comparator = .among <;>
      simp [hcmp, hcmp'] at hword ⊢
  refine ⟨hfield, ?_⟩
  rcases supports_of_relation hcolumn hsupported with hcmp | hcmp | hcmp <;>
    rcases supports_of_relation hcolumn' hsupported' with hcmp' | hcmp' | hcmp' <;>
    simp [hcmp, hcmp'] at hnot hamong ⊢

/-- A test tells the field and the comparator of its condition. -/
theorem WellFormed.field_comparator_eq (hc : c.WellFormed) (hc' : c'.WellFormed)
    (h : tokens c.comparison = tokens c'.comparison) :
    c.field = c'.field ∧ c.comparator = c'.comparator := by
  have hhead := congrArg List.head? h
  rw [hc.head?_comparison, hc'.head?_comparison] at hhead
  cases hcolumn : c.field.column? with
  | none =>
    cases hcolumn' : c'.field.column? with
    | none =>
      rw [comparison_of_none hcolumn, comparison_of_none hcolumn'] at h
      exact relation_inj hcolumn hcolumn' hc.supported hc'.supported h
    | some column =>
      rw [hcolumn, hcolumn', eq_of_column? hcolumn'] at hhead
      split_ifs at hhead <;> simp at hhead
  | some column =>
    cases hcolumn' : c'.field.column? with
    | none =>
      rw [hcolumn, hcolumn', eq_of_column? hcolumn] at hhead
      split_ifs at hhead <;> simp at hhead
    | some column' =>
      rw [comparison_of_some hcolumn, comparison_of_some hcolumn', hc.tokens_columnPieces hcolumn,
        hc'.tokens_columnPieces hcolumn'] at h
      obtain ⟨hfield, hcmp⟩ := leftTokens_inj hcolumn hcolumn' h
      exact ⟨hfield, comparator_eq_of_statementText hcmp⟩

/-- A test tells the shape of its condition. -/
theorem WellFormed.shape_eq (hc : c.WellFormed) (hc' : c'.WellFormed)
    (h : tokens c.comparison = tokens c'.comparison) :
    c.shape = c'.shape := by
  obtain ⟨hfield, hcmp⟩ := hc.field_comparator_eq hc' h
  refine hc.shape_eq_of_length hc' hfield hcmp ?_
  rw [← hc.count_comparison, ← hc'.count_comparison, ← count_tokens c.comparison, h, count_tokens]

/-- A condition is one test, or two where a missing value matches, too. -/
theorem grouping_cases (nulls : Bool) (c : Condition) :
    c.grouping nulls = .test (tokens c.comparison) ∨
      ∃ column, c.field.column? = some column ∧
        c.grouping nulls = .any [.test (tokens c.comparison),
          .test (tokens (nullTest column))] := by
  unfold grouping
  cases hcolumn : c.field.column? with
  | none => exact .inl rfl
  | some column =>
    simp only
    split
    · exact .inr ⟨column, rfl, rfl⟩
    · exact .inl rfl

theorem WellFormed.shape_eq_of_grouping {nulls : Bool} (hc : c.WellFormed) (hc' : c'.WellFormed)
    (h : c.grouping nulls = c'.grouping nulls) : c.shape = c'.shape := by
  refine hc.shape_eq hc' ?_
  rcases c.grouping_cases nulls with hg | ⟨column, -, hg⟩ <;>
    rcases c'.grouping_cases nulls with hg' | ⟨column', -, hg'⟩ <;>
    simp only [hg, hg', reduceCtorEq, Tree.test.injEq, Tree.any.injEq, List.cons.injEq] at h
  · exact h
  · exact h.1

/-- The test for a missing value is not that of a condition. -/
theorem WellFormed.tokens_ne_nullTest (hc : c.WellFormed) {f : Field} {column : String}
    (h : f.column? = some column) :
    tokens c.comparison ≠ tokens (nullTest column) := by
  intro heq
  have hzero : (nullTest column).count '?' = 0 := by
    rw [nullTest, List.count_append, List.count_eq_zero.2 (column_no_mark h)]
    decide
  have hpos := List.length_pos_iff.2 hc.values
  rw [← hc.count_comparison, ← count_tokens, heq, count_tokens, hzero] at hpos
  exact absurd hpos (by decide)

end Condition

/-! ### Expressions -/

namespace Expr

variable {nulls : Bool}

theorem WellFormed.grouping_ne_nullTest {e : Expr} (he : e.WellFormed) {f : Field} {column : String}
    (h : f.column? = some column) : e.grouping nulls ≠ .test (tokens (nullTest column)) := by
  cases he with
  | @condition c hc =>
    intro heq
    rcases c.grouping_cases nulls with hg | ⟨_, -, hg⟩
    · exact hc.tokens_ne_nullTest h (Tree.test.inj (hg.symm.trans heq))
    · simp [grouping, hg] at heq
  | all => simp [grouping]
  | any => simp [grouping]

/-- The two tests of a condition are not the parts of a group. -/
theorem grouping_condition_ne_any (c : Condition) {parts : List Expr}
    (hparts : ∀ e ∈ parts, e.WellFormed) :
    c.grouping nulls ≠ .any (groupings nulls parts) := by
  intro heq
  rcases c.grouping_cases nulls with hg | ⟨column, hcolumn, hg⟩
  · simp [hg] at heq
  · have hmem : Tree.test (tokens (nullTest column)) ∈ parts.map (grouping nulls) := by
      rw [← groupings_eq_map, ← Tree.any.inj (hg.symm.trans heq)]
      simp
    obtain ⟨e, he, hmissing⟩ := List.mem_map.1 hmem
    exact (hparts e he).grouping_ne_nullTest hcolumn hmissing

theorem grouping_condition_ne_all (c : Condition) (trees : List Tree) :
    c.grouping nulls ≠ .all trees := by
  rcases c.grouping_cases nulls with hg | ⟨_, -, hg⟩ <;> simp [hg]

theorem shapes_eq_of_groupings {es es' : List Expr}
    (hes : ∀ e ∈ es, ∀ e' : Expr, e'.WellFormed → e.grouping nulls = e'.grouping nulls →
      e.shape = e'.shape)
    (hes' : ∀ e ∈ es', e.WellFormed) (h : groupings nulls es = groupings nulls es') :
    shapes es = shapes es' := by
  induction es generalizing es' with
  | nil =>
    cases es' with
    | nil => rfl
    | cons e' es' => simp [groupings] at h
  | cons e es ih =>
    cases es' with
    | nil => simp [groupings] at h
    | cons e' es' =>
      obtain ⟨he, hes⟩ := List.forall_mem_cons.1 hes
      obtain ⟨he', hes'⟩ := List.forall_mem_cons.1 hes'
      obtain ⟨hhead, htail⟩ := List.cons.inj h
      rw [shapes, shapes, he e' he' hhead, ih hes hes' htail]

/-- The groups of a filter tell its shape. -/
theorem WellFormed.shape_eq_of_grouping {e : Expr} (he : e.WellFormed) :
    ∀ e' : Expr, e'.WellFormed → e.grouping nulls = e'.grouping nulls → e.shape = e'.shape := by
  induction he with
  | @condition c hc =>
    intro e' he' h
    cases he' with
    | condition hc' => rw [shape, shape, hc.shape_eq_of_grouping hc' h]
    | all => exact absurd h (grouping_condition_ne_all c _)
    | any _ hparts => exact absurd h (grouping_condition_ne_any c hparts)
  | all _ _ ih =>
    intro e' he' h
    cases he' with
    | @condition c' hc' => exact absurd h.symm (grouping_condition_ne_all c' _)
    | all _ hparts => rw [shape, shape, shapes_eq_of_groupings ih hparts (Tree.all.inj h)]
    | any => simp [grouping] at h
  | any _ hparts ih =>
    intro e' he' h
    cases he' with
    | @condition c' hc' => exact absurd h.symm (grouping_condition_ne_any c' hparts)
    | all => simp [grouping] at h
    | any _ hparts => rw [shape, shape, shapes_eq_of_groupings ih hparts (Tree.any.inj h)]

theorem WellFormed.read_statement {e : Expr} (he : e.WellFormed) (nulls : Bool) :
    Reader.read (e.statement nulls).toList = some (e.grouping nulls) := by
  rw [toList_statement]
  exact Reader.read_of_reads (he.reads nulls)

/-- Two filters have one statement exactly if they have one shape. -/
theorem WellFormed.statement_eq_iff {e e' : Expr} (he : e.WellFormed) (he' : e'.WellFormed)
    (nulls : Bool) :
    e'.statement nulls = e.statement nulls ↔ e'.shape = e.shape := by
  constructor
  · intro h
    have hread := he'.read_statement nulls
    rw [h, he.read_statement nulls] at hread
    exact he'.shape_eq_of_grouping e he (Option.some.inj hread).symm
  · intro h
    rw [← String.toList_inj, toList_statement, toList_statement, ← he'.characters_shape,
      ← he.characters_shape, h]

end Expr

/-- The statement of a filter that was read depends on the values of the filter nowhere, and on
everything else: it is the statement of the well-formed filters of the same shape only.  It has one
placeholder for each value, bound from left to right, and it reads as the groups of the filter. -/
theorem statement_faithful {zones : String → Option Zone} {now : Instant} {filter zoneName : String}
    {e : Expr} (h : parse zones now filter zoneName = .ok (some e)) (nulls : Bool) :
    (∀ e' : Expr, e'.WellFormed → (e'.statement nulls = e.statement nulls ↔ e'.shape = e.shape)) ∧
      (e.statement nulls).toList.count '?' = (e.conditions.flatMap (·.operand.values)).length ∧
      e.bounds nulls = e.conditions.flatMap Condition.bounds ∧
      Reader.read (e.statement nulls).toList = some (e.grouping nulls) := by
  have he := parse_wellFormed h e rfl
  have hcarries := he.carries_pieces nulls
  refine ⟨fun e' he' => he.statement_eq_iff he' nulls, ?_, hcarries.filterMap_eq,
    he.read_statement nulls⟩
  rw [Expr.toList_statement, hcarries.count, List.length_flatMap, List.length_flatMap]
  simp only [Condition.length_bounds]

/-- A missing value that matches, too, a list, and a value with a question mark. -/
theorem statement_faithful_nested :
    ∃ e, parse Zone.tabulated? default "description like 'why?' && (labels in 1, 2 || done = true)"
      "" = .ok (some e) ∧
      e.statement true =
        "((t.description LIKE ? OR t.description IS NULL) AND " ++
          "(EXISTS (SELECT 1 FROM label_tasks lt WHERE lt.task_id = t.id AND " ++
          "lt.label_id IN (?, ?)) OR t.done = ?))" ∧
      (∀ e' : Expr, e'.WellFormed → (e'.statement true = e.statement true ↔ e'.shape = e.shape)) ∧
      (e.statement true).toList.count '?' = 4 ∧
      e.bounds true = [.pattern "%why?%", .value (.int 1), .value (.int 2), .value (.bool true)] ∧
      Reader.read (e.statement true).toList = some (e.grouping true) := by
  have hread : (parse Zone.tabulated? default
      "description like 'why?' && (labels in 1, 2 || done = true)" "").toOption.map
      (·.map fun e => (e.statement true, e.conditions.flatMap Condition.bounds,
        (e.conditions.flatMap (·.operand.values)).length)) =
      some (some
        ("((t.description LIKE ? OR t.description IS NULL) AND " ++
          "(EXISTS (SELECT 1 FROM label_tasks lt WHERE lt.task_id = t.id AND " ++
          "lt.label_id IN (?, ?)) OR t.done = ?))",
        [.pattern "%why?%", .value (.int 1), .value (.int 2), .value (.bool true)], 4)) := by
    decide +kernel
  obtain ⟨e, he, hvalues⟩ := exists_of_parse hread
  simp only [Prod.mk.injEq] at hvalues
  obtain ⟨hstatement, hbounds, hlength⟩ := hvalues
  obtain ⟨hshape, hcount, hbound, hgroups⟩ := statement_faithful he true
  exact ⟨e, he, hstatement, hshape, hcount.trans hlength, hbound.trans hbounds, hgroups⟩

end Kanban.Filter
