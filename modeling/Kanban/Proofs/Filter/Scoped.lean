import Kanban.Listing.Plan
import Kanban.Proofs.Filter.Suffix
import Kanban.Proofs.Text.Integer

/-!
# Filters with a condition on an id

A filter text in parentheses with the condition on an id behind it reads as the conjunction of the
filter and the condition (`Filter.parseIn_scoped`), whatever the text is, as long as it reads by
itself.
-/

namespace Kanban.Filter

/-- The condition that a field has an id. -/
def idExpr (f : Field) (id : Int) : Expr := .condition ⟨f, .equal, .single (.int id)⟩

/-- A filter, if there is one, and the condition that a field has an id. -/
def scopedExpr (f : Field) (id : Int) : Option Expr → Expr
  | none => idExpr f id
  | some e => .all [e, idExpr f id]

/-! ### The text of an id -/

/-- A character of a written integer. -/
def IsNumeral (c : Char) : Prop := c.isDigit = true ∨ c = '-'

instance (c : Char) : Decidable (IsNumeral c) := inferInstanceAs (Decidable (_ ∨ _))

theorem IsNumeral.isBlank {c : Char} (h : IsNumeral c) : Text.isBlank c = false := by
  rcases h with h | rfl
  · rw [Char.isDigit_iff_toNat] at h
    have h0 : '0'.toNat = 48 := rfl
    have h9 : '9'.toNat = 57 := rfl
    simp only [Text.isBlank, Bool.or_eq_false_iff, Bool.and_eq_false_iff, decide_eq_false_iff_not,
      beq_eq_false_iff_ne]
    omega
  · decide

theorem IsNumeral.ne {c d : Char} (h : IsNumeral c) (hd : ¬IsNumeral d) : c ≠ d := by
  rintro rfl
  exact hd h

theorem isNumeral_of_mem {i : Int} {c : Char} (h : c ∈ (toString i).toList) : IsNumeral c := by
  rw [Integer.toList_toString] at h
  have hdigit : c ∈ Nat.toDigits 10 i.natAbs → c.isDigit = true :=
    Nat.isDigit_of_mem_toDigits (by decide) (by decide)
  split at h
  · rcases List.mem_cons.1 h with rfl | h
    · exact .inr rfl
    · exact .inl (hdigit h)
  · exact .inl (hdigit h)

theorem toList_toString_ne_nil (i : Int) : (toString i).toList ≠ [] := by
  rw [Integer.toList_toString]
  split
  · simp
  · exact Nat.toDigits_ne_nil

theorem trimStart_eq_self {cs : List Char} (h : ∀ c ∈ cs, Text.isBlank c = false) :
    Text.trimStart cs = cs := by
  cases cs with
  | nil => rfl
  | cons c cs => simp [Text.trimStart, h c (by simp)]

theorem trimEnd_eq_self {cs : List Char} (h : ∀ c ∈ cs, Text.isBlank c = false) :
    Text.trimEnd cs = cs := by
  rw [Text.trimEnd, trimStart_eq_self fun c hc => h c (List.mem_reverse.1 hc), List.reverse_reverse]

/-- A text in which no mark begins is read to its end. -/
theorem untilMark_eq_self {marks : List String} {cs : List Char}
    (h : ∀ c ∈ cs, ∀ m ∈ marks, ∃ d ds, m.toList = d :: ds ∧ d ≠ c) :
    untilMark marks cs = (cs, []) := by
  induction cs with
  | nil => rfl
  | cons c cs ih =>
    have hany : (marks.any fun m => (Text.after? m.toList (c :: cs)).isSome) = false := by
      rw [List.any_eq_false]
      intro m hm
      obtain ⟨d, ds, hd, hne⟩ := h c (by simp) m hm
      simp [hd, Text.after?, hne]
    rw [untilMark, hany, ih fun c' hc' => h c' (by simp [hc'])]
    rfl

/-- A written integer is read to its end. -/
theorem token_numerals (ctx : Context) {cs : List Char} (hne : cs ≠ [])
    (hcs : ∀ c ∈ cs, IsNumeral c) :
    token ctx valueEnds (' ' :: cs) = .ok (cs, []) := by
  have hblank : ∀ c ∈ cs, Text.isBlank c = false := fun c hc => (hcs c hc).isBlank
  have htrim : Text.trimStart (' ' :: cs) = cs := trimStart_eq_self hblank
  have huntil : untilMark valueEnds cs = (cs, []) := by
    refine untilMark_eq_self fun c hc m hm => ?_
    have hc := hcs c hc
    simp only [valueEnds, List.mem_cons, List.not_mem_nil, or_false] at hm
    rcases hm with rfl | rfl | rfl
    · exact ⟨'&', ['&'], rfl, (hc.ne (by decide)).symm⟩
    · exact ⟨'|', ['|'], rfl, (hc.ne (by decide)).symm⟩
    · exact ⟨')', [], rfl, (hc.ne (by decide)).symm⟩
  rw [token, htrim]
  cases cs with
  | nil => exact absurd rfl hne
  | cons c cs =>
    have hquote : ¬(c = '"' ∨ c = '\'') := by
      rintro (rfl | rfl)
      · exact absurd (hcs '"' (by simp)) (by decide)
      · exact absurd (hcs '\'' (by simp)) (by decide)
    simp only [if_neg hquote, huntil, trimEnd_eq_self hblank]
    rfl

/-! ### The condition -/

variable (ctx : Context) (f : Field) (id : Int)

/-- What reading the condition on an id gives. -/
def idReading : Except Fault (Expr × List Char) :=
  if Integer.Bounds.int64.holds id then .ok (idExpr f id, [])
    else .error (.invalidValue (toString id) f)

theorem value_toString (hf : f.kind = .int) :
    value ctx valueEnds f (' ' :: (toString id).toList) =
      if Integer.Bounds.int64.holds id then .ok (.int id, [])
        else .error (.invalidValue (toString id) f) := by
  have htoken := token_numerals ctx (toList_toString_ne_nil id) fun _ => isNumeral_of_mem
  have hscalar : scalar? ctx f.kind (toString id).toList =
      if Integer.Bounds.int64.holds id then some (.int id) else none := by
    rw [hf]
    show (Integer.int64? _).map Scalar.int = _
    rw [Integer.int64?_toString]
    split <;> rfl
  simp only [value, htoken, bind, Except.bind, hscalar, String.ofList_toList]
  by_cases hid : Integer.Bounds.int64.holds id = true
  · simp only [if_pos hid]
  · simp only [if_neg hid]

/-- The condition on an id reads as written, for an id of 64 bits. -/
theorem condition_idCondition (hf : f.kind = .int) :
    condition ctx (idCondition f id).toList = idReading f id := by
  have htext : (idCondition f id).toList =
      f.name.toList ++ ' ' :: '=' :: ' ' :: (toString id).toList := by
    simp [idCondition]
  have hname : ∀ c ∈ f.name.toList, isNameChar c = true := by
    rw [← List.all_eq_true]
    cases f <;> rfl
  have htrim : Text.trimStart (idCondition f id).toList = (idCondition f id).toList := by
    rw [htext]
    cases f <;> rfl
  have hofName : Field.ofName? f.name.toList = some f := by cases f <;> rfl
  have hne : f.name.toList.isEmpty = false := by cases f <;> rfl
  have hcomparator :
      comparator (' ' :: '=' :: ' ' :: (toString id).toList) =
        .ok (.equal, ' ' :: (toString id).toList) :=
    rfl
  have hsupports : supports f .equal = true := by cases f <;> rfl
  have htake : (idCondition f id).toList.takeWhile isNameChar = f.name.toList := by
    rw [htext, List.takeWhile_append_of_pos hname]
    exact List.append_nil _
  have hdrop : (idCondition f id).toList.dropWhile isNameChar =
      ' ' :: '=' :: ' ' :: (toString id).toList := by
    rw [htext, List.dropWhile_append_of_pos hname]
    rfl
  simp only [condition, htrim, htake, hdrop, hne, hofName, hcomparator, bind, Except.bind,
    hsupports, operand, value_toString ctx f id hf, idReading, idExpr]
  by_cases hid : Integer.Bounds.int64.holds id = true
  · simp [if_pos hid]
  · simp [if_neg hid]

/-! ### The whole text -/

/-- A group of conditions in parentheses reads as the group, if the text of the group does. -/
theorem primary_group {ctx : Context} (ctx' : Context) (hctx : ctx.Agrees ctx') {n m : Nat}
    (hnm : n ≤ m) {cs rest : List Char} {e : Expr} (h : disjunction ctx n cs = .ok (e, rest))
    (hrest : Text.trimStart rest = []) (x : List Char) :
    primary ctx' (m + 1) ('(' :: (cs ++ ')' :: x)) = .ok (e, x) := by
  have hinner := disjunction_append (x := ')' :: x) (.inr ⟨x, rfl⟩) hctx hnm h
  have hopen : eat? "(" ('(' :: (cs ++ ')' :: x)) = some (cs ++ ')' :: x) := rfl
  have hclose : eat? ")" (rest ++ ')' :: x) = some x := by
    rw [eat?, trimStart_append (.inr ⟨x, rfl⟩), hrest]
    rfl
  simp only [primary, hopen, hinner, hclose, bind, Except.bind]

/-- The condition on an id reads as a part of a conjunction. -/
theorem primary_idCondition {f : Field} (hf : f.kind = .int) (ctx : Context) (id : Int) (n : Nat) :
    primary ctx (n + 1) (idCondition f id).toList = idReading f id := by
  have hopen : eat? "(" (idCondition f id).toList = none := by
    rw [idCondition, String.toList_append, String.toList_append, List.append_assoc]
    cases f <;> rfl
  simp only [primary, hopen, condition_idCondition ctx f id hf]

theorem parseIn_eq_ok {z : Zone} {now : Instant} {cs : List Char} {e : Expr} :
    parseIn z now cs = .ok e ↔
      ∃ rest, disjunction ⟨Text.byteLength cs, z, now⟩ (depthFor cs.length) cs = .ok (e, rest) ∧
        Text.trimStart rest = [] := by
  simp only [parseIn, bind_eq_ok, Prod.exists]
  constructor
  · rintro ⟨e', rest, h, hrest⟩
    split at hrest
    · rename_i hempty
      obtain rfl := Except.ok.inj hrest
      exact ⟨rest, h, List.isEmpty_iff.1 hempty⟩
    · simp at hrest
  · rintro ⟨rest, h, hrest⟩
    exact ⟨e, rest, h, by rw [hrest]; rfl⟩

/-- What reading a filter with the condition on an id gives. -/
def scopedReading (f : Field) (id : Int) (expr : Option Expr) : Except Fault Expr :=
  if Integer.Bounds.int64.holds id then .ok (scopedExpr f id expr)
    else .error (.invalidValue (toString id) f)

variable {f : Field} (hf : f.kind = .int) (z : Zone) (now : Instant) (id : Int)

include hf

/-- The condition on an id alone reads as written. -/
theorem parseIn_idCondition :
    parseIn z now (idCondition f id).toList = scopedReading f id none := by
  unfold parseIn scopedReading
  generalize (⟨Text.byteLength (idCondition f id).toList, z, now⟩ : Context) = ctx
  obtain ⟨d, hd⟩ : ∃ d, depthFor (idCondition f id).toList.length = d + 3 := ⟨_, rfl⟩
  simp only [hd, disjunction, conjunction, primary_idCondition hf, idReading]
  by_cases hid : Integer.Bounds.int64.holds id = true
  · simp only [if_pos hid]
    rfl
  · simp only [if_neg hid]
    rfl

/-- A filter with the condition on an id reads as the conjunction of the filter and the
condition. -/
theorem parseIn_scoped {filter : String} {e : Expr} (h : parseIn z now filter.toList = .ok e) :
    parseIn z now ("(" ++ filter ++ ") && " ++ idCondition f id).toList =
      scopedReading f id (some e) := by
  obtain ⟨rest, hinner, hrest⟩ := parseIn_eq_ok.1 h
  have htext : ("(" ++ filter ++ ") && " ++ idCondition f id).toList =
      '(' :: (filter.toList ++ ')' :: ' ' :: '&' :: '&' :: ' ' :: (idCondition f id).toList) := by
        simp
  rw [htext]
  unfold parseIn scopedReading
  generalize hctx : (⟨Text.byteLength _, z, now⟩ : Context) = ctx
  -- The depth is enough for the group, which is read three calls deeper, and for the condition.
  obtain ⟨d, hd, hdepth⟩ : ∃ d,
      depthFor ('(' :: (filter.toList ++ ')' :: ' ' :: '&' :: '&' :: ' ' ::
      (idCondition f id).toList)).length = d + 5 ∧ depthFor filter.toList.length ≤ d + 2 := by
    refine ⟨depthFor ('(' :: (filter.toList ++ ')' :: ' ' :: '&' :: '&' :: ' ' ::
      (idCondition f id).toList)).length - 5, ?_, ?_⟩ <;>
    · simp only [depthFor, List.length_cons, List.length_append]
      omega
  have hgroup := primary_group ctx ⟨hctx ▸ rfl, hctx ▸ rfl⟩ hdepth hinner hrest
    (' ' :: '&' :: '&' :: ' ' :: (idCondition f id).toList)
  have hand : eat? "&&" (' ' :: '&' :: '&' :: ' ' :: (idCondition f id).toList) =
      some (' ' :: (idCondition f id).toList) := rfl
  have hcondition : primary ctx (d + 2) (' ' :: (idCondition f id).toList) = idReading f id :=
    primary_idCondition hf ctx id (d + 1)
  simp only [hd, disjunction, conjunction, conjuncts, hgroup, hand, hcondition, idReading,
    bind, Except.bind]
  by_cases hid : Integer.Bounds.int64.holds id = true
  · simp only [if_pos hid]
    rfl
  · simp only [if_neg hid]

omit hf in
/-- No zone is found for a name that is neither blank nor known. -/
theorem zone_eq_error {zones : String → Option Zone} {name : String} {fault : Fault} :
    zone zones name = .error fault ↔
      (Text.trimmed name).isEmpty = false ∧ zones (Text.trimmed name) = none ∧
        fault = .unknownZone (Text.trimmed name) := by
  simp only [zone]
  cases (Text.trimmed name).isEmpty <;> cases zones (Text.trimmed name) <;> simp [eq_comm]

omit hf in
theorem parse_eq_ok {zones : String → Option Zone} {filter zoneName : String}
    (hblank : Text.isAllBlank filter.toList = false) {expr : Option Expr} :
    parse zones now filter zoneName = .ok expr ↔
      ∃ z e, zone zones zoneName = .ok z ∧ parseIn z now filter.toList = .ok e ∧ expr = some e := by
  rw [parse, hblank, if_neg (by simp)]
  simp only [bind_eq_ok, Except.ok.injEq]
  constructor
  · rintro ⟨z, hz, e, he, rfl⟩
    exact ⟨z, e, hz, he, rfl⟩
  · rintro ⟨z, e, hz, he, rfl⟩
    exact ⟨z, hz, e, he, rfl⟩

omit hf in
theorem scopedReading_eq_ok {expr : Option Expr} {e : Expr} (h : scopedReading f id expr = .ok e) :
    e = scopedExpr f id expr := by
  unfold scopedReading at h
  split at h
  · exact (Except.ok.inj h).symm
  · simp at h

omit hf in
/-- A filter with the condition on an id is not blank. -/
theorem isAllBlank_scopedFilter (filter : String) :
    Text.isAllBlank (scopedFilter filter f id).toList = false := by
  unfold scopedFilter
  split
  · rw [idCondition, String.toList_append, String.toList_append, List.append_assoc]
    cases f <;> rfl
  · simp only [String.toList_append, List.append_assoc]
    rfl

/-- In a known zone a filter with the condition on an id reads as the filter and the condition. -/
theorem parse_scopedFilter_eq {zones : String → Option Zone} {filter zoneName : String}
    {expr : Option Expr} {z : Zone} (hz : zone zones zoneName = .ok z)
    (h : parse zones now filter zoneName = .ok expr) :
    parse zones now (scopedFilter filter f id) zoneName = (scopedReading f id expr).map some := by
  have hparse : parse zones now (scopedFilter filter f id) zoneName =
      (parseIn z now (scopedFilter filter f id).toList).map some := by
    rw [parse, isAllBlank_scopedFilter, if_neg (by simp), hz]
    rfl
  rw [hparse]
  by_cases hblank : Text.isAllBlank filter.toList = true
  · obtain rfl : none = expr := Except.ok.inj ((if_pos hblank).symm.trans h)
    rw [scopedFilter, if_pos hblank, parseIn_idCondition hf]
  · obtain ⟨z', e, hz', he, rfl⟩ := (parse_eq_ok now (Bool.eq_false_iff.2 hblank)).1 h
    obtain rfl := Except.ok.inj (hz.symm.trans hz')
    rw [scopedFilter, if_neg hblank, parseIn_scoped hf z now id he]

/-- Whatever is read of a filter with the condition on an id, it is the filter and the condition. -/
theorem parse_scopedFilter {zones : String → Option Zone} {filter zoneName : String}
    {expr expr' : Option Expr} (h : parse zones now filter zoneName = .ok expr)
    (h' : parse zones now (scopedFilter filter f id) zoneName = .ok expr') :
    expr' = some (scopedExpr f id expr) := by
  obtain ⟨z, -, hz, -⟩ := (parse_eq_ok now (isAllBlank_scopedFilter id filter)).1 h'
  rw [parse_scopedFilter_eq hf now id hz h] at h'
  obtain ⟨e, he, rfl⟩ := map_eq_ok.1 h'
  rw [scopedReading_eq_ok id he]

end Kanban.Filter
