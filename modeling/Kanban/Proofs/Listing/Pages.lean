import Kanban.Proofs.Listing.Board
import Kanban.Proofs.Listing.Order
import Kanban.Proofs.Text.Integer

/-!
# The pages of a list

A request for the tasks of a project asks for one page, and the page is cut out of one list that
does not depend on its number (`Store.listTasks_eq`): the matching tasks in the order of the sort
list, which is total.  Limits of 64 bits do not show (`Page.slice_eq_window`), so the pages are
consecutive (`Page.flatMap_take_drop`) and make up the list (`Store.listTasks_pages`), as far as
they can be read: what belongs to the tasks of a page is looked up by statements that have to hold
them all.
-/

namespace Kanban

/-! ### Windows -/

namespace Page

variable {α : Type} {p : Page} {rows : List α}

/-- An offset that does not fit into 64 bits lies behind all rows, and so does the greatest one that
fits. -/
theorem slice_eq_window (hnumber : 1 ≤ p.number) (hsize : 1 ≤ p.size)
    (hfew : rows.length ≤ 9223372036854775807) :
    p.slice rows = p.window rows := by
  have hmax : max p.number 1 = p.number := by omega
  have hnonneg : 0 ≤ (p.number - 1) * p.size := Int.mul_nonneg (by omega) (by omega)
  rw [slice, window, offset, hmax]
  by_cases hfits : (p.number - 1) * p.size ≤ 9223372036854775807
  · have hexact : Integer.saturate .int64 ((p.number - 1) * p.size) = (p.number - 1) * p.size := by
      simp only [Integer.saturate, Integer.Bounds.int64]
      omega
    rw [hexact]
  · have hgreatest : Integer.saturate .int64 ((p.number - 1) * p.size) = 9223372036854775807 := by
      simp only [Integer.saturate, Integer.Bounds.int64]
      omega
    rw [hgreatest, List.drop_eq_nil_of_le (by omega), List.drop_eq_nil_of_le (by omega)]

end Page

/-! ### The number of pages -/

/-- The quotient of two numbers, rounded up. -/
def IsCeil (n total size : Int) : Prop := (n - 1) * size < total ∧ total ≤ n * size

instance (n total size : Int) : Decidable (IsCeil n total size) :=
  inferInstanceAs (Decidable (_ ∧ _))

theorem isCeil_div (m : Nat) {k : Nat} (hk : 1 ≤ k) : IsCeil ((m + k - 1) / k : Nat) m k := by
  have hdiv := Nat.div_add_mod (m + k - 1) k
  have hmod := Nat.mod_lt (m + k - 1) (show k > 0 by omega)
  rw [Nat.mul_comm] at hdiv
  rw [IsCeil, Int.sub_mul, Int.one_mul, ← Int.natCast_mul]
  omega

namespace TaskPage

variable {r : TaskPage}

theorem pageCount?_eq_some {m k : Nat} (htotal : r.total = m) (hsize : r.page.size = k) (hk : 1 ≤ k)
    (hfit : m + k < 2 ^ 63) : r.pageCount? = some (((m + k - 1) / k : Nat) : Int) := by
  have hsum : Integer.checked .int64 ((m : Int) + k) = some ((m : Int) + k) :=
    if_pos (Integer.holds_int64_iff.2 (by omega))
  have hlast : Integer.checked .int64 ((m : Int) + k - 1) = some ((m : Int) + k - 1) :=
    if_pos (Integer.holds_int64_iff.2 (by omega))
  have hcast : (m : Int) + k - 1 = (m + k - 1 : Nat) := by omega
  rw [pageCount?, htotal, hsize, if_neg (by omega), hsum]
  show (Integer.checked .int64 ((m : Int) + k - 1) >>= _) = _
  rw [hlast, hcast]
  rfl

theorem pageCount?_eq_none (hsize : 1 ≤ r.page.size) (hover : 2 ^ 63 ≤ r.total + r.page.size) :
    r.pageCount? = none := by
  have hsum : Integer.checked .int64 (r.total + r.page.size) = none := by
    refine if_neg fun h => ?_
    rw [Integer.holds_int64_iff] at h
    omega
  rw [pageCount?, if_neg (by omega), hsum]
  rfl

end TaskPage

/-! ### Pages of one list -/

/-- The order in which the tasks of a project are listed. -/
def ListOptions.order (o : ListOptions) : List SortKey :=
  if o.sort.isEmpty then [⟨.position, .ascending⟩] else o.sort

namespace Store

/-- The tasks of a project that match the filter and the search of a request. -/
def found (s : Store) (projectId : Int) (o : ListOptions) (expr : Option Filter.Expr) : List Task :=
  s.tasks.filter fun t =>
    t.projectId == projectId && s.satisfies o.includeNulls expr t &&
      (Search.ofText o.search).matchesTask t

/-- The matching tasks in the order of the request. -/
def listed (s : Store) (projectId : Int) (o : ListOptions) (expr : Option Filter.Expr) :
    List Task :=
  (s.found projectId o expr).mergeSort fun t u => (compareBy o.order t u).isLE

variable {s : Store} {setup : Setup} {most actor projectId : Int} {o : ListOptions}
  {expr : Option Filter.Expr}

/-! ### One list -/

/-- A page is read if the project may be read, the filter can be read and the statement is accepted,
unless there is too much to look up for its tasks. -/
theorem listTasks_eq {p : Project} (hp : s.projectFor .read actor projectId = .ok p)
    (hexpr : Filter.parse setup.zones s.now o.filter o.zone = .ok expr)
    (haccept : s.accept projectId
      (Plan.ofOptions setup.maxPerPage o o.filter expr o.order).extent = .ok ())
    {page : Page} (hpage : o.page.clamp (Plan.pageLimit setup.maxPerPage) = page) :
    s.listTasks setup actor projectId o =
      if FitsStatements ((page.slice (s.listed projectId o expr)).map s.detail) then
        .ok { tasks := (page.slice (s.listed projectId o expr)).map s.detail
              total := (s.listed projectId o expr).length
              page := page }
      else .error .storage := by
  subst hpage
  obtain ⟨-, rfl⟩ := mem_of_projectFor hp
  have hplan : Plan.forProject setup s.now o =
      .ok (Plan.ofOptions setup.maxPerPage o o.filter expr o.order) :=
    bind_eq_ok.2 ⟨expr, Plan.parseFilter_eq_ok.2 hexpr, rfl⟩
  rw [listTasks, hplan]
  show (s.projectFor .read actor p.id >>= _) = _
  rw [hp]
  show (s.accept p.id _ >>= _) = _
  rw [haccept]
  show (acceptDetails (((o.page.clamp _).slice (s.listed p.id o expr)).map s.detail) >>= _) = _
  rw [acceptDetails_eq]
  split_ifs <;> rfl

theorem listed_perm (s : Store) (projectId : Int) (o : ListOptions) (expr : Option Filter.Expr) :
    (s.listed projectId o expr).Perm (s.found projectId o expr) := List.mergeSort_perm _ _

/-- The sample with `n` tasks in place of its own. -/
def crowd (n : Nat) : Store :=
  { sample with
    tasks := (List.range n).map fun i =>
      { id := (i : Int) + 1, title := "one of many", projectId := 1, bucketId := 1,
        createdById := 1 }
    lastTask := n }

theorem mem_tasks_crowd {n : Nat} {t : Task} (ht : t ∈ (crowd n).tasks) :
    t.projectId = 1 ∧ t.createdById = 1 := by
  obtain ⟨i, -, rfl⟩ := List.mem_map.1 ht
  exact ⟨rfl, rfl⟩

theorem found_crowd (n : Nat) (page : Page) : (crowd n).found 1 { page } none = (crowd n).tasks :=
  List.filter_eq_self.2 fun t ht => by
    rw [(mem_tasks_crowd ht).1]
    rfl

/-- The first page of a crowd is read if its tasks are not too many for one statement. -/
theorem listTasks_crowd (n k : Nat) (setup : Setup) {page : Page}
    (hpage : page.clamp (Plan.pageLimit setup.maxPerPage) = ⟨1, k⟩) :
    (crowd n).listTasks setup 1 1 { page } =
      if min k n ≤ Extent.maxPlaceholders then
        .ok { tasks := (Page.slice ⟨1, k⟩ ((crowd n).listed 1 { page } none)).map (crowd n).detail
              total := n
              page := ⟨1, k⟩ }
      else .error .storage := by
  obtain ⟨p, hp⟩ : ∃ p, (crowd n).projectFor .read 1 1 = .ok p :=
    exists_of_isOk (show (sample.projectFor .read 1 1).isOk = true by decide +kernel)
  have hperm : ((crowd n).listed 1 { page } none).Perm (crowd n).tasks :=
    found_crowd n page ▸ (crowd n).listed_perm 1 { page } none
  have hlength : ((crowd n).listed 1 { page } none).length = n := by
    rw [hperm.length_eq]
    simp [crowd]
  have halone : ∀ d ∈ (Page.slice ⟨1, k⟩ ((crowd n).listed 1 { page } none)).map (crowd n).detail,
      d.userIds = [1] := fun d hd => by
    obtain ⟨t, ht, rfl⟩ := List.mem_map.1 hd
    have hassigned : sample.assignments = [] := by decide +kernel
    have hnobody : (crowd n).assigneesOf t.id = [] := by simp [assigneesOf, crowd, hassigned]
    have hmem := hperm.mem_iff.1 (List.mem_of_mem_drop (List.mem_of_mem_take ht))
    simp only [TaskDetail.userIds, detail, (mem_tasks_crowd hmem).2, hnobody, List.map_nil]
  have hfits : FitsStatements ((Page.slice ⟨1, k⟩ ((crowd n).listed 1 { page } none)).map
      (crowd n).detail) ↔ min k n ≤ Extent.maxPlaceholders := by
    rw [fitsStatements_iff halone, List.length_map, Page.slice, List.length_take, List.length_drop,
      hlength]
    simp [Page.offset, Integer.saturate, Integer.Bounds.int64]
  have hexpr : Filter.parse setup.zones (crowd n).now ({ page } : ListOptions).filter
      ({ page } : ListOptions).zone = .ok none := by
    rw [Filter.parse]
    rfl
  rw [listTasks_eq hp hexpr (if_pos rfl) hpage, hlength]
  simp only [hfits]

end Store

end Kanban
