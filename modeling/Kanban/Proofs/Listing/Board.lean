import Kanban.Proofs.Listing.Details
import Kanban.Proofs.Listing.Plans
import Kanban.Proofs.Listing.Rows
import Kanban.Proofs.Operation.Buckets
import Kanban.Proofs.Tasks.Move

/-!
# The board

A board is read by one statement with the filters of all plans, but it shows what reading bucket by
bucket with the filter of the request would (`Store.plainColumn`, `Store.readBoard_eq_plain`): in
each bucket the requested page of its matching tasks in their order, and their number.
-/

namespace Kanban

open Kanban.Filter (Expr)

/-! ### The order inside a bucket -/

theorem compareCells_ofDouble {x y : Double} (hx : x.isNaN = false) (hy : y.isNaN = false) :
    compareCells (.ofDouble x) (.ofDouble y) = compare x.place y.place := by
  simp only [Filter.Cell.ofDouble, hx, hy, Bool.false_eq_true, if_false, compareCells,
    Filter.Cell.compare?, Double.compare?, Double.place?_eq_some hx, Double.place?_eq_some hy,
    Option.getD_some]

/-- The order of a plan for a bucket is that of the bucket. -/
theorem compareBy_bucketOrder {t u : Task} (ht : t.kanbanPosition.isNaN = false)
    (hu : u.kanbanPosition.isNaN = false) :
    (compareBy Plan.bucketOrder t u).isLE = true ↔ t.spot .kanban ≤ u.spot .kanban := by
  have hcompare : compareBy Plan.bucketOrder t u =
      (compare t.kanbanPosition.place u.kanbanPosition.place).then (compare t.id u.id) := by
    show (compareCells (.ofDouble _) (.ofDouble _)).then
        ((compare t.id u.id).then (compare t.id u.id)) = _
    rw [compareCells_ofDouble ht hu]
    cases compare t.id u.id <;> rfl
  rw [hcompare, Ordering.isLE_then_iff_or, compare_lt_iff_lt, compare_eq_iff_eq, Int.isLE_compare,
    Task.spot, Task.spot, spot_le_iff]
  rfl

namespace Store

variable {setup : Setup} {most actor : Int} {o : ListOptions} {expr : Option Expr} {s : Store}
  {projectId b : Int}

/-! ### Reading bucket by bucket -/

/-- The tasks of a bucket that match the filter and the search of a request, in the order of the
bucket. -/
def matching (s : Store) (projectId : Int) (o : ListOptions) (expr : Option Expr) (bucketId : Int) :
    List Task :=
  (s.orderedIn .kanban bucketId).filter fun t =>
    t.projectId == projectId && s.satisfies o.includeNulls expr t &&
      (Search.ofText o.search).matchesTask t

/-- A bucket with a page of its matching tasks and their number. -/
def plainColumn (s : Store) (most : Int) (p : Project) (o : ListOptions) (expr : Option Expr)
    (b : Bucket) :
    BucketDetail :=
  { s.bucketDetail b with
    tasks := ((o.page.clamp (Plan.pageLimit most)).window
      (s.matching p.id o expr b.id)).map s.detail
    count := (s.matching p.id o expr b.id).length }

/-! ### Reading in one go -/

open Plan

theorem selectAny_eq (s : Store) (most projectId : Int) (o : ListOptions) (expr : Option Expr)
    (ids : List Int) :
    s.selectAny projectId (bucketPlans most o expr ids) =
      (s.tasks.filter fun t => t.projectId == projectId &&
        s.wanted (bucketPlans most o expr ids) t &&
        (Search.ofText o.search).matchesTask t).mergeSort fun t u =>
          (compareBy bucketOrder t u).isLE := by
  cases ids with
  | nil =>
    rw [List.filter_eq_nil_iff.2 (by simp [bucketPlans, wanted]), List.mergeSort_nil]
    rfl
  | cons id ids => rfl

/-- The selected tasks of a bucket of the board are its matching ones. -/
theorem inBucket_selectAny (hids : (s.tasks.map (·.id)).Nodup)
    (hnum : ∀ t ∈ s.tasks, (t.key .kanban).isNaN = false) (hexpr : ∀ e ∈ expr, e.WellFormed)
    (most projectId : Int) (o : ListOptions) {buckets : List Int} (hb : b ∈ buckets) :
    BoardRow.inBucket b (s.selectAny projectId (bucketPlans most o expr (relevant expr buckets))) =
      s.matching projectId o expr b := by
  have hle : ∀ L : List Task, L.Sublist s.tasks → ∀ t ∈ L, ∀ u ∈ L,
      (compareBy bucketOrder t u).isLE = true ↔ t.spot .kanban ≤ u.spot .kanban :=
    fun L hL t ht u hu => compareBy_bucketOrder (hnum t (hL.subset ht)) (hnum u (hL.subset hu))
  rw [selectAny_eq]
  refine eq_of_increasing (f := Task.spot .kanban) ?_ ?_ ?_
  · -- Both select the same tasks of the bucket.
    refine ((List.mergeSort_perm _ _).filter _).trans ?_
    refine List.Perm.trans ?_ ((s.orderedIn_perm .kanban b).filter _).symm
    rw [tasksIn, List.filter_filter, List.filter_filter]
    refine List.Perm.of_eq (List.filter_congr fun t _ => ?_)
    by_cases ht : t.bucketId = b
    · have hwanted := wanted_iff most o s hexpr (ht ▸ hb)
      rw [Bool.eq_iff_iff]
      simp only [Bool.and_eq_true, hwanted]
      exact and_comm
    · have hbeq : (t.bucketId == b) = false := by simpa using ht
      rw [hbeq, Bool.and_false, Bool.false_and]
  · exact (increasing_mergeSort (hle _ List.filter_sublist)
      (nodup_spot (hids.sublist (List.filter_sublist.map _)) .kanban)).filter _
  · exact (orderedIn_increasing hids hnum b).filter _

theorem boardTasks_eq (s : Store) (most projectId : Int) (o : ListOptions) (expr : Option Expr)
    (ids : List Int) :
    s.boardTasks projectId (bucketPlans most o expr ids) =
      { tasks := ((BoardRow.returned (o.page.clamp (pageLimit most))
          (s.selectAny projectId (bucketPlans most o expr ids))).filter
            ((o.page.clamp (pageLimit most)).offset < ·.number)).map (·.task)
        totals := (BoardRow.returned (o.page.clamp (pageLimit most))
          (s.selectAny projectId (bucketPlans most o expr ids))).map
            fun r => (r.task.bucketId, r.total) } := by
  cases ids with
  | nil =>
    have hnone : BoardRow.returned (o.page.clamp (pageLimit most)) [] = [] := List.mergeSort_nil
    simp only [bucketPlans, List.map_nil, selectAny, hnone, List.filter_nil]
    rfl
  | cons id ids => rfl

theorem one_le_number_clamp (most : Int) (p : Page) : 1 ≤ (p.clamp most).number := by
  simp only [Page.clamp]
  omega

theorem one_le_size_clamp (most : Int) (p : Page) : 1 ≤ (p.clamp (pageLimit most)).size := by
  simp only [Page.clamp, pageLimit]
  split <;> omega

/-- A column of the board is the bucket read by itself. -/
theorem boardColumn_eq (hids : (s.tasks.map (·.id)).Nodup)
    (hnum : ∀ t ∈ s.tasks, (t.key .kanban).isNaN = false)
    (hfew : s.tasks.length ≤ 9223372036854775807) (hexpr : ∀ e ∈ expr, e.WellFormed) (p : Project)
    {buckets : List Int} {b : Bucket} (hb : b.id ∈ buckets) :
    s.boardColumn (s.boardTasks p.id (bucketPlans most o expr (relevant expr buckets))) b =
      s.plainColumn most p o expr b := by
  have hselected := inBucket_selectAny hids hnum hexpr most p.id o hb
  have hlength : (s.selectAny p.id (bucketPlans most o expr (relevant expr buckets))).length ≤
      9223372036854775807 := by
    rw [selectAny_eq, List.length_mergeSort]
    exact (List.length_filter_le ..).trans hfew
  have hpage :=
    BoardRow.page_returned (one_le_number_clamp (pageLimit most) o.page)
      (one_le_size_clamp most o.page)
    hlength b.id
  have htotal := BoardRow.total_returned (p := o.page.clamp (pageLimit most))
    (s.selectAny p.id (bucketPlans most o expr (relevant expr buckets))) b.id
  rw [hselected] at hpage htotal
  rw [boardTasks_eq, boardColumn, plainColumn, ← hpage, ← htotal]
  rfl

/-- The board shows what reading bucket by bucket would. -/
theorem readBoard_eq_plain (hids : (s.tasks.map (·.id)).Nodup)
    (hnum : ∀ t ∈ s.tasks, (t.key .kanban).isNaN = false)
    (hfew : s.tasks.length ≤ 9223372036854775807) {columns : List BucketDetail}
    (h : s.readBoard setup actor projectId o = .ok columns) :
    ∃ p expr, s.projectFor .read actor projectId = .ok p ∧
      Filter.parse setup.zones s.now o.filter o.zone = .ok expr ∧
      columns = (s.bucketsOf p.id).map (s.plainColumn setup.maxPerPage p o expr) ∧
      ∀ c ∈ columns, ∀ d ∈ c.tasks, s.readTask actor d.task.id = .ok d := by
  obtain ⟨p, hp, h⟩ := bind_eq_ok.1 h
  obtain ⟨_, -, h⟩ := bind_eq_ok.1 h
  obtain ⟨plans, hplans, h⟩ := bind_eq_ok.1 h
  obtain ⟨_, -, h⟩ := bind_eq_ok.1 h
  obtain ⟨_, -, h⟩ := bind_eq_ok.1 h
  obtain ⟨expr, hexpr, rfl⟩ := forBoard_eq_ok hplans
  have hcolumns : columns = (s.bucketsOf p.id).map (s.plainColumn setup.maxPerPage p o expr) := by
    rw [← Except.ok.inj h]
    exact List.map_congr_left fun b hb =>
      boardColumn_eq hids hnum hfew (Filter.parse_wellFormed hexpr) p (List.mem_map_of_mem hb)
  refine ⟨p, expr, hp, hexpr, hcolumns, fun c hc d hd => ?_⟩
  rw [hcolumns] at hc
  obtain ⟨b, -, rfl⟩ := List.mem_map.1 hc
  obtain ⟨t, ht, rfl⟩ := List.mem_map.1 hd
  obtain ⟨hmem, hmatches⟩ := List.mem_filter.1 (List.mem_of_mem_drop (List.mem_of_mem_take ht))
  have htp : t.projectId = p.id := by
    rw [Bool.and_eq_true, Bool.and_eq_true, beq_iff_eq] at hmatches
    exact hmatches.1.1
  have htasks := mem_tasks_of_mem_tasksIn ((s.orderedIn_perm .kanban b.id).mem_iff.1 hmem)
  -- Whoever reads the board may read each of its tasks by itself.
  have hread : s.projectFor .read actor t.projectId = .ok p := by
    rw [htp, (mem_of_projectFor hp).2]
    exact hp
  exact bind_eq_ok.2 ⟨t, (getTask_eq_ok hids).2 ⟨htasks, rfl⟩, bind_eq_ok.2 ⟨p, hread, rfl⟩⟩

/-- A board is read if its plans are made and its statements are accepted. -/
theorem exists_readBoard {p : Project} {plans : List (Int × Plan)}
    (hp : s.projectFor .read actor projectId = .ok p)
    (hcreators : acceptIds ((s.bucketsOf projectId).map (·.createdById)).eraseDups = .ok ())
    (hplans : forBoard setup s.now o ((s.bucketsOf projectId).map (·.id)) = .ok plans)
    (haccept : s.acceptBoard projectId (plans.map (·.2)) = .ok ())
    (hfits : FitsStatements (s.tasks.map s.detail)) :
    ∃ columns, s.readBoard setup actor projectId o = .ok columns := by
  obtain ⟨-, rfl⟩ := mem_of_projectFor hp
  have hdetails : acceptDetails ((s.boardTasks p.id plans).tasks.map s.detail) = .ok () := by
    rw [acceptDetails_eq, if_pos (fitsStatements_boardTasks hfits p.id plans)]
  exact ⟨_, bind_eq_ok.2 ⟨p, hp, bind_eq_ok.2 ⟨(), hcreators, bind_eq_ok.2 ⟨plans, hplans,
    bind_eq_ok.2 ⟨(), haccept, bind_eq_ok.2 ⟨(), hdetails, rfl⟩⟩⟩⟩⟩⟩

/-- The second page of the tasks other than the second one, with one task on a page. -/
theorem readBoard_eq_plain_sample :
    ∃ columns, sample.readBoard {} 1 1 { filter := "id != 2", page := ⟨2, 1⟩ } = .ok columns ∧
      columns.map (·.count) = [2] ∧ columns.map (·.tasks.map (·.task.id)) = [[3]] := by
  let o : ListOptions := { filter := "id != 2", page := ⟨2, 1⟩ }
  obtain ⟨columns, hcolumns⟩ : ∃ columns, sample.readBoard {} 1 1 o = .ok columns := by
    have hp : sample.projectFor .read 1 1 = .ok (sample.projects.head (by decide +kernel)) := by
      decide +kernel
    obtain ⟨_, haccepted⟩ : ∃ a,
        (forBoard {} sample.now o ((sample.bucketsOf 1).map (·.id)) >>= fun plans =>
      sample.acceptBoard 1 (plans.map (·.2))) = .ok a := exists_of_isOk (by decide +kernel)
    obtain ⟨plans, hplans, haccept⟩ := bind_eq_ok.1 haccepted
    exact exists_readBoard hp (by decide +kernel) hplans haccept (by decide +kernel)
  obtain ⟨p, expr, hp, hexpr, hplain, -⟩ :=
    readBoard_eq_plain (by decide +kernel) (by decide +kernel) (by decide +kernel) hcolumns
  obtain rfl : sample.projects.head (by decide +kernel) = p :=
    Except.ok.inj (Eq.trans (by decide +kernel) hp)
  have hbuckets : sample.bucketsOf (sample.projects.head (by decide +kernel)).id =
      [sample.buckets.head (by decide +kernel)] := by decide +kernel
  have hmatching : (sample.matching (sample.projects.head (by decide +kernel)).id o expr
      (sample.buckets.head (by decide +kernel)).id).map (·.id) = [1, 3] := by
    have heval : ((Filter.parse (fun _ => none) sample.now o.filter o.zone).toOption.map fun expr =>
        (sample.tasks.filter fun t => t.projectId == 1 && sample.satisfies false expr t &&
          (Search.ofText "").matchesTask t).map (·.id)) = some [1, 3] := by decide +kernel
    rw [hexpr] at heval
    have hid : (sample.buckets.head (by decide +kernel)).id = 1 := by decide +kernel
    have hpid : (sample.projects.head (by decide +kernel)).id = 1 := by decide +kernel
    rw [matching, hid, hpid, orderedIn_sample]
    exact Option.some.inj heval
  refine ⟨columns, hcolumns, ?_, ?_⟩
  · have hlength := congrArg List.length hmatching
    rw [List.length_map] at hlength
    simp only [hplain, hbuckets, List.map_cons, List.map_nil, plainColumn, hlength]
    rfl
  · have hwindow := congrArg (o.page.clamp (pageLimit 50)).window hmatching
    simp only [Page.window, ← List.map_drop, ← List.map_take] at hwindow
    simp only [hplain, hbuckets, List.map_cons, List.map_nil, plainColumn, List.map_map]
    exact congrArg ([·]) hwindow

end Store

end Kanban
