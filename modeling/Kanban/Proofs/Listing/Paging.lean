import Kanban.Config
import Kanban.Proofs.Listing.Pages
import Kanban.Proofs.Text.Integer

/-!
# The arithmetic of pages

Pages are counted in 64 bits.  Whatever page a request asks for, and whatever size is configured,
the offset and the end of a page stop at the greatest number instead of passing it, and the rows on
the page are those whose rank, counted from one, the exact products enclose (`Page.slice_eq_filter`,
`BoardRow.isOnPage_iff`).  The number of pages is the exact quotient rounded up as long as the first
sum in it fits into 64 bits (`TaskPage.exists_pageCount`).  For want of a limit there, there is none
beyond that: a list of three tasks on a page of the greatest size has no number of pages
(`Page.pageCount_passes_limit`).
-/

namespace Kanban

/-! ### Configured sizes -/

namespace Config

theorem holds_of_integerVariable {b : Integer.Bounds} {env : String → Option String} {name : String}
    {default i : Int} (hzero : b.holds 0 = true) (hdefault : b.holds default = true)
    (h : integerVariable b env name default = .ok i) :
    b.holds i = true := by
  unfold integerVariable at h
  split at h
  · exact Except.ok.inj h ▸ hdefault
  · split at h
    · rename_i hread
      exact Except.ok.inj h ▸ Integer.holds_of_read hzero hread
    · cases h

/-- The configured size of a page is positive and has 64 bits. -/
theorem maxItemsPerPage_of_merge {args : Arguments} {env : String → Option String} {c : Config}
    (h : merge args env = .ok c)
    (hargs : ∀ n, args.maxItemsPerPage = some n → Integer.Bounds.int64.holds n = true) :
    1 ≤ c.maxItemsPerPage ∧ Integer.Bounds.int64.holds c.maxItemsPerPage = true := by
  obtain ⟨port, -, h⟩ := bind_eq_ok.1 h
  obtain ⟨most, hmost, h⟩ := bind_eq_ok.1 h
  have hvariable := holds_of_integerVariable (by decide) (by decide) hmost
  simp only at h
  split at h
  · cases h
  · rename_i hpositive
    obtain rfl := Except.ok.inj h
    refine ⟨Int.not_lt.1 hpositive, ?_⟩
    cases hgiven : args.maxItemsPerPage with
    | none => exact hvariable
    | some n => exact hargs n hgiven

end Config

/-! ### Ranks -/

namespace Page

variable {p : Page}

/-- A row with this rank, counted from one, is on the page. -/
def HasRank (p : Page) (rank : Int) : Prop :=
  (p.number - 1) * p.size < rank ∧ rank ≤ p.number * p.size

instance (p : Page) (rank : Int) : Decidable (p.HasRank rank) := inferInstanceAs (Decidable (_ ∧ _))

theorem hasRank_iff (hnumber : 1 ≤ p.number) (hsize : 1 ≤ p.size) {n : Nat} :
    p.HasRank n ↔
      ((p.number - 1) * p.size).toNat < n ∧ n ≤ ((p.number - 1) * p.size).toNat + p.size.toNat := by
  have hnonneg : 0 ≤ (p.number - 1) * p.size := Int.mul_nonneg (by omega) (by omega)
  have hend : p.number * p.size = (p.number - 1) * p.size + p.size := by
    rw [Int.sub_mul, Int.one_mul]; omega
  rw [HasRank, hend]
  omega

/-- The rows that are cut out of a list are those with the ranks of the page. -/
theorem slice_eq_filter {α : Type} (hnumber : 1 ≤ p.number) (hsize : 1 ≤ p.size) {rows : List α}
    (hfew : rows.length ≤ 9223372036854775807) :
    p.slice rows = ((rows.zipIdx 1).filter fun r => decide (p.HasRank r.2)).map Prod.fst := by
  rw [slice_eq_window hnumber hsize hfew, window, ← filter_zipIdx]
  simp only [hasRank_iff hnumber hsize]

/-- The number of pages before a page, the rows before it and its end have 64 bits. -/
theorem holds_offset (hnumber : 1 ≤ p.number) (h : Integer.Bounds.int64.holds p.number = true) :
    Integer.Bounds.int64.holds (max p.number 1 - 1) = true ∧
    Integer.Bounds.int64.holds p.offset = true ∧
      Integer.Bounds.int64.holds (Integer.saturate .int64 (p.offset + p.size)) = true := by
  have hsaturated : ∀ i, Integer.Bounds.int64.holds (Integer.saturate .int64 i) = true := by
    intro i
    rw [Integer.holds_int64_iff]
    simp only [Integer.saturate, Integer.Bounds.int64]
    omega
  refine ⟨?_, hsaturated _, hsaturated _⟩
  rw [Integer.holds_int64_iff] at h ⊢
  omega

end Page

/-- A numbered row is on the page exactly if its number is a rank of the page. -/
theorem BoardRow.isOnPage_iff {p : Page} (hnumber : 1 ≤ p.number) (hsize : 1 ≤ p.size)
    {r : BoardRow} (hr : r.number ≤ 9223372036854775807) :
    r.isOnPage p = true ↔ p.HasRank r.number := by
  have hmax : max p.number 1 = p.number := by omega
  have hnonneg : 0 ≤ (p.number - 1) * p.size := Int.mul_nonneg (by omega) (by omega)
  rw [Page.hasRank_iff hnumber hsize]
  simp only [BoardRow.isOnPage, Bool.and_eq_true, decide_eq_true_eq, Page.offset, hmax,
    Integer.saturate, Integer.Bounds.int64]
  omega

/-- The number of pages is the quotient of total and size, rounded up, if their sum has 64 bits. -/
theorem TaskPage.exists_pageCount {t : TaskPage} (htotal : 0 ≤ t.total) (hsize : 1 ≤ t.page.size)
    (hfit : t.total + t.page.size ≤ 9223372036854775807) :
    ∃ n, t.pageCount? = some n ∧ IsCeil n t.total t.page.size := by
  obtain ⟨m, hm⟩ := Int.eq_ofNat_of_zero_le htotal
  obtain ⟨k, hk⟩ := Int.eq_ofNat_of_zero_le (show 0 ≤ t.page.size by omega)
  rw [hm, hk] at hfit ⊢
  exact ⟨_, pageCount?_eq_some hm hk (by omega) (by omega), isCeil_div m (by omega)⟩

namespace Page

/-- A page whose numbers are exact as far as they have 64 bits. -/
structure Exact (p : Page) : Prop where
  number : 1 ≤ p.number
  size : 1 ≤ p.size
  /-- What is computed on the way to the offset and to the end of the page has 64 bits. -/
  bounded : Integer.Bounds.int64.holds (max p.number 1 - 1) = true ∧
    Integer.Bounds.int64.holds p.offset = true ∧
    Integer.Bounds.int64.holds (Integer.saturate .int64 (p.offset + p.size)) = true
  /-- The rows of a list are on the page by their ranks, whatever the rows are. -/
  slice : ∀ {α : Type} (rows : List α), rows.length ≤ 9223372036854775807 →
    p.slice rows = ((rows.zipIdx 1).filter fun r => decide (p.HasRank r.2)).map Prod.fst
  /-- So are the rows of a board. -/
  isOnPage : ∀ r : BoardRow, r.number ≤ 9223372036854775807 →
    (r.isOnPage p = true ↔ p.HasRank r.number)
  /-- The number of pages is exact if total and size together have 64 bits. -/
  pageCount : ∀ t : TaskPage, t.page = p → 0 ≤ t.total → t.total + p.size ≤ 9223372036854775807 →
    ∃ n, t.pageCount? = some n ∧ IsCeil n t.total p.size
  /-- Else there is none. -/
  passed : ∀ t : TaskPage, t.page = p → 9223372036854775807 < t.total + p.size → t.pageCount? = none

/-- Whatever page is asked for and whatever size is configured, the page is counted exactly. -/
theorem arithmetic_exact {args : Arguments} {env : String → Option String} {c : Config}
    (hargs : ∀ n, args.maxItemsPerPage = some n → Integer.Bounds.int64.holds n = true)
    (h : Config.merge args env = .ok c) {q : Page}
    (hq : Integer.Bounds.int64.holds q.number = true) :
    (q.clamp (Plan.pageLimit c.maxItemsPerPage)).Exact ∧
      (q.clamp (Plan.pageLimit c.maxItemsPerPage)).size ≤ c.maxItemsPerPage := by
  obtain ⟨hpositive, hmost⟩ := Config.maxItemsPerPage_of_merge h hargs
  have hnumber := Store.one_le_number_clamp (Plan.pageLimit c.maxItemsPerPage) q
  have hsize := Store.one_le_size_clamp c.maxItemsPerPage q
  have hlimit : (q.clamp (Plan.pageLimit c.maxItemsPerPage)).size ≤ c.maxItemsPerPage := by
    simp only [clamp, Plan.pageLimit]
    split <;> omega
  have hholds : Integer.Bounds.int64.holds (q.clamp (Plan.pageLimit c.maxItemsPerPage)).number =
      true := by
    rw [Integer.holds_int64_iff] at hq ⊢
    simp only [clamp]
    omega
  refine ⟨⟨hnumber, hsize, holds_offset hnumber hholds,
    fun rows hfew => slice_eq_filter hnumber hsize hfew,
    fun r hr => BoardRow.isOnPage_iff hnumber hsize hr, fun t ht htotal hfit => ?_,
    fun t ht hover => ?_⟩, hlimit⟩
  · rw [← ht] at hsize hfit ⊢
    exact TaskPage.exists_pageCount htotal hsize hfit
  · rw [← ht] at hsize hover
    exact TaskPage.pageCount?_eq_none hsize hover

/-- The greatest size of a page can be configured. -/
theorem exists_greatest :
    ∃ c, Config.merge { maxItemsPerPage := some 9223372036854775807 } (fun _ => none) = .ok c ∧
    c.maxItemsPerPage = 9223372036854775807 := by
  obtain ⟨c, hc⟩ : ∃ c, Config.merge { maxItemsPerPage := some 9223372036854775807 }
      (fun _ => none) = .ok c :=
    exists_of_isOk (by decide +kernel)
  have hread : ((Config.merge { maxItemsPerPage := some 9223372036854775807 }
    (fun _ => none)).toOption.map
      (·.maxItemsPerPage)) = some 9223372036854775807 := by decide +kernel
  rw [hc] at hread
  exact ⟨c, hc, Option.some.inj hread⟩

/-- The greatest page there is, with the greatest size. -/
theorem arithmetic_exact_greatest :
    ∃ c, Config.merge { maxItemsPerPage := some 9223372036854775807 } (fun _ => none) = .ok c ∧
      (Page.clamp (Plan.pageLimit c.maxItemsPerPage) ⟨9223372036854775807, 0⟩).Exact ∧
      (Page.clamp (Plan.pageLimit c.maxItemsPerPage) ⟨9223372036854775807, 0⟩).size =
        9223372036854775807 := by
  obtain ⟨c, hc, hmost⟩ := exists_greatest
  refine ⟨c, hc, (arithmetic_exact ?_ hc (by decide)).1, ?_⟩
  · rintro n ⟨⟩
    decide
  · rw [hmost]
    decide

/-- With the greatest size configured and asked for, the list of three tasks has no number of
pages. -/
theorem pageCount_passes_limit :
    ∃ (c : Config) (r : TaskPage),
      Config.merge { maxItemsPerPage := some 9223372036854775807 } (fun _ => none) = .ok c ∧
      (Store.crowd 3).listTasks { maxPerPage := c.maxItemsPerPage } 1 1
        { page := ⟨1, 9223372036854775807⟩ } = .ok r ∧
      r.total = 3 ∧ r.page = ⟨1, 9223372036854775807⟩ ∧ r.pageCount? = none ∧
      IsCeil 1 r.total r.page.size := by
  obtain ⟨c, hc, hmost⟩ := exists_greatest
  have hpage : clamp (Plan.pageLimit c.maxItemsPerPage) ⟨1, 9223372036854775807⟩ =
      ⟨1, (9223372036854775807 : Nat)⟩ := by
    rw [hmost]
    decide
  have hread :=
    Store.listTasks_crowd 3 9223372036854775807 { maxPerPage := c.maxItemsPerPage } hpage
  rw [if_pos (by decide)] at hread
  refine ⟨c, _, hc, hread, rfl, rfl, TaskPage.pageCount?_eq_none (by simp) (by simp), ?_⟩
  simp [IsCeil]

end Page

end Kanban
