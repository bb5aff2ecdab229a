import Kanban.Listing.Query
import Kanban.Proofs.Filter.Pinned
import Kanban.Proofs.Filter.Scoped

/-!
# Plans for a board

The plans for a board share order, page and search and differ in their filters
(`Plan.forBoard_eq_ok`).  Together they want the same tasks of the board as the filter of the
request (`Store.wanted_iff`): buckets without a plan have no matching tasks, and the filter of a
plan adds nothing to that of the request but the bucket.
-/

namespace Kanban

open Kanban.Filter (Expr)

variable {setup : Setup} {now : Instant} {o : ListOptions} {expr : Option Expr}

namespace Plan

/-- The filter of the plan for a bucket. -/
def bucketExpr (expr : Option Expr) (id : Int) : Option Expr :=
  if expr.any (·.references .bucketId) then expr else some (Filter.scopedExpr .bucketId id expr)

/-- The plan for a bucket. -/
def bucketPlan (most : Int) (o : ListOptions) (expr : Option Expr) (id : Int) : Plan :=
  ofOptions most o (if expr.any (·.references .bucketId) then o.filter
    else scopedFilter o.filter .bucketId id)
    (bucketExpr expr id) bucketOrder

/-- The plans for buckets of a board. -/
def bucketPlans (most : Int) (o : ListOptions) (expr : Option Expr) (ids : List Int) :
    List (Int × Plan) :=
  ids.map fun id => (id, bucketPlan most o expr id)

theorem parseFilter_eq_ok {zones : String → Option Zone} {filter zone : String} :
    parseFilter zones now filter zone = .ok expr ↔
      Filter.parse zones now filter zone = .ok expr := by
  unfold parseFilter
  cases Filter.parse zones now filter zone <;> simp [Except.mapError]

theorem forBucket_eq_ok (hexpr : Filter.parse setup.zones now o.filter o.zone = .ok expr) {id : Int}
    {plan : Plan} (h : forBucket setup now o id = .ok plan) :
    plan = bucketPlan setup.maxPerPage o expr id := by
  obtain ⟨expr', hexpr', h⟩ := bind_eq_ok.1 h
  obtain rfl := Except.ok.inj (hexpr.symm.trans (parseFilter_eq_ok.1 hexpr'))
  unfold bucketPlan bucketExpr
  split at h
  · rename_i hrefs
    rw [if_pos hrefs, if_pos hrefs, Except.ok.inj h]
  · rename_i hrefs
    obtain ⟨expr', hexpr', h⟩ := bind_eq_ok.1 h
    -- The text with the condition on the bucket is read anew, and reads as the filter and the
    -- condition.
    rw [if_neg hrefs, if_neg hrefs,
      ← Filter.parse_scopedFilter rfl now id hexpr (parseFilter_eq_ok.1 hexpr'), Except.ok.inj h]

theorem mapM_eq_ok {α β ε : Type} {f : α → Except ε β} {g : α → β} {xs : List α} {ys : List β}
    (hfg : ∀ x y, f x = .ok y → y = g x) (h : xs.mapM f = .ok ys) : ys = xs.map g := by
  induction xs generalizing ys with
  | nil => exact (Except.ok.inj h).symm
  | cons x xs ih =>
    rw [List.mapM_cons] at h
    obtain ⟨y, hy, h⟩ := bind_eq_ok.1 h
    obtain ⟨ys', hys', h⟩ := bind_eq_ok.1 h
    obtain rfl := Except.ok.inj h
    rw [List.map_cons, hfg x y hy, ih hys']

/-- The plans for a board. -/
theorem forBoard_eq_ok {buckets : List Int} {plans : List (Int × Plan)}
    (h : forBoard setup now o buckets = .ok plans) :
    ∃ expr, Filter.parse setup.zones now o.filter o.zone = .ok expr ∧
      plans = bucketPlans setup.maxPerPage o expr (relevant expr buckets) := by
  obtain ⟨expr, hexpr, h⟩ := bind_eq_ok.1 h
  have hexpr := parseFilter_eq_ok.1 hexpr
  refine ⟨expr, hexpr, mapM_eq_ok (fun id y hy => ?_) h⟩
  obtain ⟨plan, hplan, hy⟩ := bind_eq_ok.1 hy
  rw [← Except.ok.inj hy, forBucket_eq_ok hexpr hplan]

end Plan

/-! ### Wanted tasks -/

/-- A task meets the condition on the bucket if it is in the bucket. -/
theorem Filter.matches_idExpr {nulls : Bool} {d : TaskDetail} {id : Int} :
    (Filter.idExpr .bucketId id).matchesTask nulls d = true ↔ d.task.bucketId = id := by
  show (_ == some true) = true ↔ _
  rw [beq_iff_eq]
  have htruth : (Filter.idExpr .bucketId id).truth nulls d =
      some (compare d.task.bucketId id == .eq) := by
    cases nulls <;> rfl
  rw [htruth, Option.some.injEq, beq_iff_eq]
  exact Std.LawfulEqOrd.compare_eq_iff_eq

theorem Filter.matches_scopedExpr {nulls : Bool} {d : TaskDetail} {id : Int} {expr : Option Expr} :
    (Filter.scopedExpr .bucketId id expr).matchesTask nulls d = true ↔
      expr.all (·.matchesTask nulls d) = true ∧ d.task.bucketId = id := by
  cases expr with
  | none => simpa [Filter.scopedExpr] using Filter.matches_idExpr
  | some e => simp [Filter.scopedExpr, Expr.matches_all, Filter.matches_idExpr]

namespace Store

variable {s : Store} {t : Task}

open Plan

theorem satisfies_bucketExpr {nulls : Bool} {id : Int} :
    s.satisfies nulls (bucketExpr expr id) t = true ↔
      s.satisfies nulls expr t = true ∧
      (expr.any (·.references .bucketId) = true ∨ t.bucketId = id) := by
  unfold bucketExpr
  split
  · rename_i hrefs
    simp [hrefs]
  · rename_i hrefs
    rw [or_iff_right hrefs]
    exact Filter.matches_scopedExpr

/-- A task of a board is wanted by some plan exactly if it matches the filter of the request. -/
theorem wanted_iff (most : Int) (o : ListOptions) (s : Store) (hexpr : ∀ e ∈ expr, e.WellFormed)
    {buckets : List Int} (ht : t.bucketId ∈ buckets) :
    s.wanted (bucketPlans most o expr (relevant expr buckets)) t = true ↔
      s.satisfies o.includeNulls expr t = true := by
  have hwanted : s.wanted (bucketPlans most o expr (relevant expr buckets)) t = true ↔
      ∃ id ∈ relevant expr buckets, s.satisfies o.includeNulls (bucketExpr expr id) t = true := by
    simp [wanted, bucketPlans, bucketPlan, ofOptions]
  simp only [hwanted, satisfies_bucketExpr]
  constructor
  · rintro ⟨id, -, hsat, -⟩
    exact hsat
  · intro hsat
    refine ⟨t.bucketId, ?_, hsat, .inr rfl⟩
    -- The filter leaves the buckets of all matching tasks in question.
    unfold relevant
    split
    · exact ht
    · rename_i ids hids
      obtain ⟨e, rfl, hpinned⟩ := Option.bind_eq_some_iff.1 hids
      refine List.mem_filter.2 ⟨ht, ?_⟩
      have hmatches : e.matchesTask o.includeNulls (s.detail t) = true := by
        simpa [satisfies] using hsat
      have hmem : t.bucketId ∈ ids := Expr.mem_pinned (hexpr e rfl) rfl rfl hpinned hmatches rfl
      simpa using hmem

end Store

end Kanban
