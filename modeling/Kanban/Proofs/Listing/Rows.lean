import Kanban.Listing.Query
import Kanban.Proofs.Store.Order

/-!
# Numbered rows

The rows of one bucket are numbered from one in their order (`BoardRow.numbered_filter`).  The
returned ones whose number lies behind the offset are the page of the bucket
(`BoardRow.page_returned`), and the total that is found for a bucket is the number of its rows,
since its first row is always returned (`BoardRow.total_returned`).
-/

namespace Kanban

/-! ### Pages -/

namespace Page

/-- The rows of a page, however far it is. -/
def window {α : Type} (p : Page) (rows : List α) : List α :=
  (rows.drop ((p.number - 1) * p.size).toNat).take p.size.toNat

/-- Limits of 64 bits do not show in lists of such a length. -/
theorem offset_lt_iff {p : Page} (hnumber : 1 ≤ p.number) (hsize : 1 ≤ p.size) {n : Nat}
    (hn : n ≤ 9223372036854775807) :
    (n = 1 ∨ p.offset < n ∧ n ≤ Integer.saturate .int64 (p.offset + p.size)) ∧ p.offset < n ↔
      ((p.number - 1) * p.size).toNat < n ∧ n ≤ ((p.number - 1) * p.size).toNat + p.size.toNat := by
  have hmax : max p.number 1 = p.number := by omega
  have hnonneg : 0 ≤ (p.number - 1) * p.size := Int.mul_nonneg (by omega) (by omega)
  simp only [offset, hmax, Integer.saturate, Integer.Bounds.int64]
  omega

end Page

/-- The rows whose numbers, counted from one, lie behind `a` and among the next `c` ones. -/
theorem filter_zipIdx {α : Type} (rows : List α) (a c : Nat) :
    ((rows.zipIdx 1).filter fun r => decide (a < r.2 ∧ r.2 ≤ a + c)).map Prod.fst =
      (rows.drop a).take c := by
  suffices h : ∀ k,
      ((rows.zipIdx (k + 1)).filter fun r => decide (k + a < r.2 ∧ r.2 ≤ k + a + c)).map Prod.fst =
      (rows.drop a).take c by
    simpa using h 0
  induction rows generalizing a c with
  | nil => simp
  | cons x rows ih =>
    intro k
    rw [List.zipIdx_cons]
    cases a with
    | succ a =>
      -- Behind the first row the numbers and the offset are one less.
      have hshift : (fun r : α × Nat => decide (k + (a + 1) < r.2 ∧ r.2 ≤ k + (a + 1) + c)) =
          fun r => decide (k + 1 + a < r.2 ∧ r.2 ≤ k + 1 + a + c) := by
        funext r
        rw [show k + (a + 1) = k + 1 + a by omega]
      rw [List.filter_cons_of_neg (by simp), hshift, ih]
      rfl
    | zero =>
      cases c with
      | zero =>
        have hnone : ∀ r ∈ (x, k + 1) :: rows.zipIdx (k + 1 + 1),
            ¬decide (k + 0 < r.2 ∧ r.2 ≤ k + 0 + 0) = true := by
          intro r _
          rw [decide_eq_true_iff]
          omega
        rw [List.filter_eq_nil_iff.2 hnone]
        simp
      | succ c =>
        have hrest : (rows.zipIdx (k + 1 + 1)).filter
            (fun r => decide (k + 0 < r.2 ∧ r.2 ≤ k + 0 + (c + 1))) =
            (rows.zipIdx (k + 1 + 1)).filter fun r => decide (k + 1 + 0 < r.2 ∧
              r.2 ≤ k + 1 + 0 + c) := by
          refine List.filter_congr fun r hr => ?_
          obtain ⟨hlow, -, -⟩ := List.mem_zipIdx (x := r.1) (i := r.2) hr
          rw [decide_eq_decide]
          omega
        rw [List.filter_cons_of_pos (by rw [decide_eq_true_iff]; omega), hrest, List.map_cons, ih]
        simp

/-! ### Rows -/

namespace BoardRow

variable {selected : List Task} {b : Int}

/-- The row of a task with a number in a bucket. -/
def ofPair (total : Nat) (r : Task × Nat) : BoardRow := ⟨r.1, r.2, total⟩

/-- The tasks of a bucket. -/
def inBucket (b : Int) (tasks : List Task) : List Task := tasks.filter (·.bucketId == b)

/-- The rows of a bucket have consecutive numbers. -/
theorem numbered_filter (selected : List Task) (b : Int) (before rest : List Task) :
    (numbered selected before rest).filter (·.task.bucketId == b) =
      ((inBucket b rest).zipIdx ((inBucket b before).length + 1)).map
        (ofPair (inBucket b selected).length) := by
  induction rest generalizing before with
  | nil => rfl
  | cons t rest ih =>
    rw [numbered]
    by_cases ht : t.bucketId = b
    · subst ht
      have hbefore : inBucket t.bucketId (before ++ [t]) = inBucket t.bucketId before ++ [t] := by
        simp [inBucket]
      have hrest : inBucket t.bucketId (t :: rest) = t :: inBucket t.bucketId rest := by
        simp [inBucket]
      rw [List.filter_cons_of_pos (by simp), ih, hbefore, hrest, List.zipIdx_cons, List.map_cons,
        List.length_append]
      rfl
    · have hbefore : inBucket b (before ++ [t]) = inBucket b before := by simp [inBucket, ht]
      have hrest : inBucket b (t :: rest) = inBucket b rest := by simp [inBucket, ht]
      rw [List.filter_cons_of_neg (by simpa using ht), ih, hbefore, hrest]

/-- Where a row stands: by bucket, then by number. -/
def spot (r : BoardRow) : Int ×ₗ Int := toLex (r.task.bucketId, r.number)

theorem le_iff_spot {q r : BoardRow} : le q r = true ↔ q.spot ≤ r.spot := by
  simp only [le, spot, Prod.Lex.toLex_le_toLex, Bool.or_eq_true, Bool.and_eq_true,
    decide_eq_true_eq, beq_iff_eq, Int.ofNat_le]

theorem increasing_ofPair {tasks : List Task} (h : ∀ t ∈ tasks, t.bucketId = b) (k total : Nat) :
    ((tasks.zipIdx k).map (ofPair total)).Pairwise (·.spot < ·.spot) := by
  induction tasks generalizing k with
  | nil => simp
  | cons t tasks ih =>
    rw [List.forall_mem_cons] at h
    rw [List.zipIdx_cons, List.map_cons, List.pairwise_cons]
    refine ⟨fun r hr => ?_, ih h.2 (k + 1)⟩
    obtain ⟨⟨u, n⟩, hu, rfl⟩ := List.mem_map.1 hr
    obtain ⟨hlow, -, -⟩ := List.mem_zipIdx hu
    have hbucket : t.bucketId = u.bucketId := h.1.trans (h.2 u (List.fst_mem_of_mem_zipIdx hu)).symm
    exact Prod.Lex.toLex_lt_toLex.2 (.inr ⟨hbucket, show (k : Int) < n by omega⟩)

/-- The returned rows of a bucket. -/
theorem returned_filter (p : Page) (selected : List Task) (b : Int) :
    (returned p selected).filter (·.task.bucketId == b) =
      (((inBucket b selected).zipIdx 1).map (ofPair (inBucket b selected).length)).filter
        fun r => r.number == 1 || r.isOnPage p := by
  have hnumbered := numbered_filter selected b [] selected
  have hbucket : ∀ t ∈ inBucket b selected, t.bucketId = b :=
    fun t ht => by simpa using (List.mem_filter.1 ht).2
  have hrows : ((numbered selected [] selected).filter fun r => r.number == 1 ||
      r.isOnPage p).filter
      (·.task.bucketId == b) =
        (((inBucket b selected).zipIdx 1).map (ofPair (inBucket b selected).length)).filter
        fun r => r.number == 1 || r.isOnPage p := by
    rw [List.filter_comm, hnumbered]
    rfl
  rw [returned, filter_mergeSort_of_increasing (f := spot) (fun q _ r _ => le_iff_spot), hrows]
  rw [hrows]
  exact (increasing_ofPair hbucket 1 _).filter _

/-- Behind the offset, the returned rows of a bucket are the page of its tasks. -/
theorem page_returned {p : Page} (hnumber : 1 ≤ p.number) (hsize : 1 ≤ p.size)
    (hfew : selected.length ≤ 9223372036854775807) (b : Int) :
    inBucket b (((returned p selected).filter (p.offset < ·.number)).map (·.task)) =
      p.window (inBucket b selected) := by
  have hpage : ∀ r ∈ (inBucket b selected).zipIdx 1,
      (((ofPair (inBucket b selected).length r).number == 1 ||
        (ofPair (inBucket b selected).length r).isOnPage p) &&
          decide (p.offset < (ofPair (inBucket b selected).length r).number)) =
        decide (((p.number - 1) * p.size).toNat < r.2 ∧
          r.2 ≤ ((p.number - 1) * p.size).toNat + p.size.toNat) := by
    intro r hr
    obtain ⟨-, hhigh, -⟩ := List.mem_zipIdx (x := r.1) (i := r.2) hr
    have hlength : (inBucket b selected).length ≤ selected.length := List.length_filter_le ..
    rw [Bool.eq_iff_iff, decide_eq_true_iff, ← Page.offset_lt_iff hnumber hsize (by omega),
      Bool.and_eq_true, Bool.or_eq_true, beq_iff_eq, isOnPage, Bool.and_eq_true]
    simp only [decide_eq_true_iff]
    rfl
  have hcomm : inBucket b (((returned p selected).filter (p.offset < ·.number)).map (·.task)) =
      (((returned p selected).filter (·.task.bucketId == b)).filter (p.offset < ·.number)).map
        (·.task) := by
    rw [inBucket, List.filter_map, List.filter_comm]
    rfl
  rw [hcomm, returned_filter, List.filter_filter, List.filter_map, List.map_map, Page.window,
    ← filter_zipIdx]
  refine congrArg (List.map Prod.fst) (List.filter_congr fun r hr => ?_)
  rw [← hpage r hr, Bool.and_comm]
  rfl

/-- The total that is found for a bucket is the number of its selected tasks. -/
theorem total_returned {p : Page} (selected : List Task) (b : Int) :
    (((returned p selected).map fun r => (r.task.bucketId, r.total)).lookup b).getD 0 =
      (inBucket b selected).length := by
  have hreturned := returned_filter p selected b
  cases hlookup : ((returned p selected).map fun r => (r.task.bucketId, r.total)).lookup b with
  | none =>
    have hnone : (returned p selected).filter (·.task.bucketId == b) = [] := by
      refine List.filter_eq_nil_iff.2 fun r hr => ?_
      have hne := List.lookup_eq_none_iff.1 hlookup _ (List.mem_map_of_mem hr)
      simpa using Ne.symm (by simpa using hne)
    -- The first row of the bucket would be among the returned ones.
    cases hbucket : inBucket b selected with
    | nil => rfl
    | cons t ts =>
      rw [hnone, hbucket, List.zipIdx_cons, List.map_cons,
        List.filter_cons_of_pos (by simp [ofPair])] at hreturned
      simp at hreturned
  | some total =>
    obtain ⟨r, hr, hpair⟩ := List.mem_map.1 (mem_of_lookup hlookup)
    obtain ⟨hb, rfl⟩ := Prod.mk.inj hpair
    have hmem : r ∈ (returned p selected).filter (·.task.bucketId == b) :=
      List.mem_filter.2 ⟨hr, by simpa using hb⟩
    rw [hreturned] at hmem
    obtain ⟨u, -, rfl⟩ := List.mem_map.1 (List.mem_filter.1 hmem).1
    rfl

end BoardRow

end Kanban
