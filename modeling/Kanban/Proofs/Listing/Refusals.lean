import Kanban.Calendar.ZoneTable
import Kanban.Proofs.Listing.BucketFilter

/-!
# Requests that are refused

The list of a project and its board refuse a filter that does not read, with the same failure.  The
list accepts all other requests, and so does the board (`Plan.forBoard_of_parse`), but for one case:
a blank filter needs no zone, and the conditions on the buckets, which the board reads in its stead,
do (`Plan.forBoard_of_unknownZone`).  Whether a request is accepted depends on the view exactly in
this case (`Plan.forBoard_refusals_exact`).
-/

namespace Kanban

/-- A filter that reads is blank, or its zone is known. -/
theorem Filter.zone_of_parse {zones : String → Option Zone} {now : Instant}
    {filter zoneName : String} {expr : Option Filter.Expr}
    (h : Filter.parse zones now filter zoneName = .ok expr) :
    Text.isAllBlank filter.toList = true ∨ ∃ z, Filter.zone zones zoneName = .ok z := by
  by_cases hblank : Text.isAllBlank filter.toList = true
  · exact .inl hblank
  · obtain ⟨z, -, hz, -⟩ := (Filter.parse_eq_ok now (Bool.eq_false_iff.2 hblank)).1 h
    exact .inr ⟨z, hz⟩

/-- A text that is not blank does not read in an unknown zone. -/
theorem Filter.parse_of_unknownZone {zones : String → Option Zone} {now : Instant}
    {filter zoneName : String} {fault : Filter.Fault}
    (hblank : Text.isAllBlank filter.toList = false)
    (hz : Filter.zone zones zoneName = .error fault) :
    Filter.parse zones now filter zoneName = .error fault := by
  rw [Filter.parse, hblank, if_neg Bool.false_ne_true, hz]
  rfl

namespace Plan

variable {setup : Setup} {now : Instant} {o : ListOptions} {expr : Option Filter.Expr}
  {buckets : List Int}

/-! ### Each view -/

/-- The list of a project is refused exactly if the filter does not read. -/
theorem forProject_eq_error {f : Failure} :
    forProject setup now o = .error f ↔
      ∃ fault, Filter.parse setup.zones now o.filter o.zone = .error fault ∧ f = .filter fault := by
  rw [forProject, bind_eq_error, parseFilter_eq_error]
  refine or_iff_left ?_
  rintro ⟨expr, -, h⟩
  cases h

/-- The board is refused if the filter does not read. -/
theorem forBoard_of_parse_error {fault : Filter.Fault}
    (h : Filter.parse setup.zones now o.filter o.zone = .error fault) :
    forBoard setup now o buckets = .error (.filter fault) :=
  bind_eq_error.2 (.inl (parseFilter_eq_error.2 ⟨fault, h, rfl⟩))

theorem mapM_of_eq_ok {α β ε : Type} {f : α → Except ε β} {g : α → β} {xs : List α}
    (h : ∀ x ∈ xs, f x = .ok (g x)) :
    xs.mapM f = .ok (xs.map g) := by
  induction xs with
  | nil => rfl
  | cons x xs ih =>
    rw [List.forall_mem_cons] at h
    rw [List.mapM_cons, h.1, ih h.2]
    rfl

/-- In a known zone a filter that reads gives plans for all buckets of a board that it leaves in
question. -/
theorem forBoard_of_parse (hids : ∀ id ∈ buckets, Integer.Bounds.int64.holds id = true) {z : Zone}
    (hz : Filter.zone setup.zones o.zone = .ok z)
    (hexpr : Filter.parse setup.zones now o.filter o.zone = .ok expr) :
    forBoard setup now o buckets =
      .ok (bucketPlans setup.maxPerPage o expr (relevant expr buckets)) := by
  refine bind_eq_ok.2 ⟨expr, parseFilter_eq_ok.2 hexpr, mapM_of_eq_ok fun id hid => ?_⟩
  have hmem : id ∈ buckets := by
    unfold relevant at hid
    split at hid
    · exact hid
    · exact List.mem_of_mem_filter hid
  rw [forBucket_of_parse (hids id hmem) hz hexpr]
  rfl

/-- Without a filter the zone is needed for the condition on the first bucket. -/
theorem forBoard_of_unknownZone (hne : buckets ≠ [])
    (hblank : Text.isAllBlank o.filter.toList = true) {fault : Filter.Fault}
    (hz : Filter.zone setup.zones o.zone = .error fault) :
    forBoard setup now o buckets = .error (.filter fault) := by
  obtain ⟨id, ids, rfl⟩ := List.exists_cons_of_ne_nil hne
  have hnone : parseFilter setup.zones now o.filter o.zone = .ok none :=
    parseFilter_eq_ok.2 (if_pos hblank)
  have hscoped : parseFilter setup.zones now (scopedFilter o.filter .bucketId id) o.zone =
      .error (.filter fault) :=
    parseFilter_eq_error.2 ⟨fault,
      Filter.parse_of_unknownZone (Filter.isAllBlank_scopedFilter id o.filter) hz, rfl⟩
  have hbucket : forBucket setup now o id = .error (.filter fault) :=
    bind_eq_error.2 (.inr ⟨none, hnone, bind_eq_error.2 (.inl hscoped)⟩)
  refine bind_eq_error.2 (.inr ⟨none, hnone, ?_⟩)
  show (id :: ids).mapM _ = _
  rw [List.mapM_cons, hbucket]
  rfl

/-! ### Both views -/

/-- A board with buckets accepts the requests that the list of the project accepts and refuses the
others with the same failure, unless the filter is blank and the zone unknown: this request is
accepted for the list and refused for the board. -/
theorem forBoard_refusals_exact (setup : Setup) (now : Instant) (o : ListOptions)
    (hne : buckets ≠ []) (hids : ∀ id ∈ buckets, Integer.Bounds.int64.holds id = true) :
    (Text.isAllBlank o.filter.toList = false ∨ (∃ z, Filter.zone setup.zones o.zone = .ok z) →
      ((∃ plans, forBoard setup now o buckets = .ok plans) ↔
        ∃ plan, forProject setup now o = .ok plan) ∧
        ∀ f, forBoard setup now o buckets = .error f ↔ forProject setup now o = .error f) ∧
    (Text.isAllBlank o.filter.toList = true →
      ∀ fault, Filter.zone setup.zones o.zone = .error fault →
      (∃ plan, forProject setup now o = .ok plan) ∧ forBoard setup now o buckets =
        .error (.filter fault)) := by
  have hproject : ∀ expr, Filter.parse setup.zones now o.filter o.zone = .ok expr →
      ∃ plan, forProject setup now o = .ok plan :=
    fun expr hexpr => ⟨_, bind_eq_ok.2 ⟨expr, parseFilter_eq_ok.2 hexpr, rfl⟩⟩
  refine ⟨fun hcase => ?_, fun hblank fault hz => ⟨hproject none (if_pos hblank),
    forBoard_of_unknownZone hne hblank hz⟩⟩
  cases hexpr : Filter.parse setup.zones now o.filter o.zone with
  | error fault =>
    have hfails : forProject setup now o = .error (.filter fault) :=
      forProject_eq_error.2 ⟨fault, hexpr, rfl⟩
    have hboard : forBoard setup now o buckets = .error (.filter fault) :=
      forBoard_of_parse_error hexpr
    simp [hfails, hboard]
  | ok expr =>
    obtain ⟨z, hz⟩ : ∃ z, Filter.zone setup.zones o.zone = .ok z := by
      rcases hcase with hfilter | hz
      · exact (Filter.zone_of_parse hexpr).resolve_left (by simp [hfilter])
      · exact hz
    obtain ⟨plan, hplan⟩ := hproject expr hexpr
    have hboard : forBoard setup now o buckets =
        .ok (bucketPlans setup.maxPerPage o expr (relevant expr buckets)) :=
      forBoard_of_parse hids hz hexpr
    simp [hplan, hboard]

/-- A filter with a parenthesis in a quoted value pins the second of two buckets; the list and the
board accept it. -/
theorem forBoard_refusals_exact_pinned :
    (∃ plan, forProject { zones := Zone.tabulated? } default
      { filter := "bucket_id = 2 && title = \"a)\"", zone := "Europe/Berlin" } = .ok plan) ∧
      ∃ plans, forBoard { zones := Zone.tabulated? } default
        { filter := "bucket_id = 2 && title = \"a)\"", zone := "Europe/Berlin" } [1, 2] =
        .ok plans := by
  let o : ListOptions := { filter := "bucket_id = 2 && title = \"a)\"", zone := "Europe/Berlin" }
  have hproject : ∃ plan, forProject { zones := Zone.tabulated? } default o = .ok plan :=
    exists_of_isOk (by decide +kernel)
  have hzone : ∃ z, Filter.zone Zone.tabulated? o.zone = .ok z := exists_of_isOk (by decide +kernel)
  have hne : [(1 : Int), 2] ≠ [] := by decide
  obtain ⟨hiff, -⟩ :=
    (forBoard_refusals_exact { zones := Zone.tabulated? } default o hne (by decide)).1 (.inr hzone)
  exact ⟨hproject, hiff.2 hproject⟩

/-- Without a filter, the list needs no zone and is accepted; the board is refused for the name of
the zone. -/
theorem forBoard_unknownZone_refused :
    (∃ plan, forProject { zones := Zone.tabulated? } default { zone := "Nowhere/Land" } =
      .ok plan) ∧
      forBoard { zones := Zone.tabulated? } default { zone := "Nowhere/Land" } [1] =
        .error (.filter (.unknownZone "Nowhere/Land")) := by
  have htrimmed : Text.trimmed "Nowhere/Land" = "Nowhere/Land" := by decide +kernel
  have hnone : Zone.tabulated? "Nowhere/Land" = none :=
    Option.isNone_iff_eq_none.1 (by decide +kernel)
  have hzone : Filter.zone Zone.tabulated? "Nowhere/Land" =
      .error (.unknownZone "Nowhere/Land") := by
    rw [Filter.zone_eq_error, htrimmed]
    exact ⟨by decide, hnone, rfl⟩
  exact ⟨exists_of_isOk (by decide +kernel), forBoard_of_unknownZone (by decide) (by decide) hzone⟩

end Plan

end Kanban
