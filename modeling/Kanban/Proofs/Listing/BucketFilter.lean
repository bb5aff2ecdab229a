import Kanban.Calendar.ZoneTable
import Kanban.Proofs.Filter.Depth
import Kanban.Proofs.Listing.Plans

/-!
# The filter of a bucket

A request for the tasks of one bucket is refused exactly when its filter does not read, and for the
same fault.  Otherwise the filter is kept if it speaks of buckets, and the condition on the bucket
is added to it if it does not: the text with the condition reads as the conjunction of what the
filter itself reads as and the condition (`Plan.forBucket_exact`).  No quote, parenthesis, comma or
mark in the filter gets the two mixed up.
-/

namespace Kanban

open Kanban.Filter (Expr)

/-- A filter is never refused for want of depth. -/
theorem Filter.parse_ne_tooDeep (zones : String → Option Zone) (now : Instant)
    (filter zoneName : String) :
    Filter.parse zones now filter zoneName ≠ .error .tooDeep := by
  unfold Filter.parse
  split
  · exact nofun
  · intro h
    rcases bind_eq_error.1 h with hz | ⟨z, -, h⟩
    · obtain ⟨-, -, hfault⟩ := Filter.zone_eq_error.1 hz
      cases hfault
    · rcases bind_eq_error.1 h with he | ⟨e, -, h⟩
      · exact Filter.parseIn_ne_tooDeep z now filter.toList he
      · simp at h

namespace Plan

variable {setup : Setup} {now : Instant} {o : ListOptions} {expr : Option Expr} {id : Int}

theorem parseFilter_eq_error {zones : String → Option Zone} {filter zone : String} {f : Failure} :
    parseFilter zones now filter zone = .error f ↔
      ∃ fault, Filter.parse zones now filter zone = .error fault ∧ f = .filter fault := by
  unfold parseFilter
  cases Filter.parse zones now filter zone <;> simp [Except.mapError, eq_comm]

/-- A filter that reads gives a plan for every bucket. -/
theorem forBucket_of_parse (hid : Integer.Bounds.int64.holds id = true) {z : Zone}
    (hz : Filter.zone setup.zones o.zone = .ok z)
    (hexpr : Filter.parse setup.zones now o.filter o.zone = .ok expr) :
    forBucket setup now o id = .ok (bucketPlan setup.maxPerPage o expr id) := by
  refine bind_eq_ok.2 ⟨expr, parseFilter_eq_ok.2 hexpr, ?_⟩
  unfold bucketPlan bucketExpr
  split
  · rfl
  · have hread : Filter.parse setup.zones now (scopedFilter o.filter .bucketId id) o.zone =
        .ok (some (Filter.scopedExpr .bucketId id expr)) := by
      rw [Filter.parse_scopedFilter_eq rfl now id hz hexpr, Filter.scopedReading, if_pos hid]
      rfl
    exact bind_eq_ok.2 ⟨_, parseFilter_eq_ok.2 hread, rfl⟩

/-- In a known zone, the plan for a bucket fails exactly as the filter of the request does.  If the
filter speaks of buckets, it is kept with what it reads as.  Otherwise the plan asks for what the
filter reads as, whatever its text, and for the bucket; without a filter it asks for the bucket
only. -/
theorem forBucket_exact (setup : Setup) (now : Instant) (o : ListOptions)
    (hid : Integer.Bounds.int64.holds id = true) {z : Zone}
    (hz : Filter.zone setup.zones o.zone = .ok z) :
    (∀ f, forBucket setup now o id = .error f ↔
      ∃ fault, Filter.parse setup.zones now o.filter o.zone = .error fault ∧ fault ≠ .tooDeep ∧
      f = .filter fault) ∧
    (Text.isAllBlank o.filter.toList = true →
      forBucket setup now o id =
        .ok (ofOptions setup.maxPerPage o (idCondition .bucketId id)
          (some (.condition ⟨.bucketId, .equal, .single (.int id)⟩))
          bucketOrder)) ∧
    (∀ e, Filter.parse setup.zones now o.filter o.zone = .ok (some e) →
      e.references .bucketId = true →
      forBucket setup now o id = .ok (ofOptions setup.maxPerPage o o.filter (some e) bucketOrder)) ∧
    (∀ e, Filter.parse setup.zones now o.filter o.zone = .ok (some e) →
      e.references .bucketId = false →
      forBucket setup now o id =
        .ok (ofOptions setup.maxPerPage o ("(" ++ o.filter ++ ") && " ++ idCondition .bucketId id)
          (some (.all [e, .condition ⟨.bucketId, .equal, .single (.int id)⟩])) bucketOrder)) ∧
    ∀ plan, forBucket setup now o id = .ok plan →
    Filter.parse setup.zones now plan.filter o.zone = .ok plan.expr := by
  refine ⟨fun f => ⟨?_, ?_⟩, ?_, ?_, ?_, ?_⟩
  · intro h
    cases hexpr : Filter.parse setup.zones now o.filter o.zone with
    | ok expr => simp [forBucket_of_parse hid hz hexpr] at h
    | error fault =>
      rcases bind_eq_error.1 h with hfail | ⟨expr, hok, -⟩
      · obtain ⟨fault', hfault, rfl⟩ := parseFilter_eq_error.1 hfail
        exact ⟨fault', hexpr ▸ hfault,
          fun hdeep => Filter.parse_ne_tooDeep _ _ _ _ (hdeep ▸ hfault), rfl⟩
      · simp [parseFilter_eq_ok.1 hok] at hexpr
  · rintro ⟨fault, hfault, -, rfl⟩
    exact bind_eq_error.2 (.inl (parseFilter_eq_error.2 ⟨fault, hfault, rfl⟩))
  · intro hblank
    have hexpr : Filter.parse setup.zones now o.filter o.zone = .ok none := if_pos hblank
    rw [forBucket_of_parse hid hz hexpr]
    simp [bucketPlan, bucketExpr, scopedFilter, hblank, Filter.scopedExpr, Filter.idExpr]
  · intro e hexpr hrefs
    rw [forBucket_of_parse hid hz hexpr]
    simp [bucketPlan, bucketExpr, hrefs]
  · intro e hexpr hrefs
    have hblank : ¬Text.isAllBlank o.filter.toList = true := by
      intro hblank
      have hnone : Filter.parse setup.zones now o.filter o.zone = .ok none := if_pos hblank
      simp [hnone] at hexpr
    rw [forBucket_of_parse hid hz hexpr]
    simp [bucketPlan, bucketExpr, hrefs, scopedFilter, hblank, Filter.scopedExpr, Filter.idExpr]
  · intro plan h
    obtain ⟨expr, hexpr, h⟩ := bind_eq_ok.1 h
    split at h
    · obtain rfl := Except.ok.inj h
      exact parseFilter_eq_ok.1 hexpr
    · obtain ⟨expr', hexpr', h⟩ := bind_eq_ok.1 h
      obtain rfl := Except.ok.inj h
      exact parseFilter_eq_ok.1 hexpr'

/-- A filter with parentheses and a mark inside a quoted value, and with an alternative behind it,
is joined with the condition on bucket 7 as a whole. -/
theorem forBucket_exact_quoted :
    ∃ e, Filter.parse Zone.tabulated? default
        "title = \"a) && (b\" || done = true" "Europe/Berlin" = .ok (some e) ∧
      e.conditions = [⟨.title, .equal, .single (.text "a) && (b")⟩,
        ⟨.done, .equal, .single (.bool true)⟩] ∧
      forBucket { zones := Zone.tabulated? } default
        { filter := "title = \"a) && (b\" || done = true", zone := "Europe/Berlin" } 7 =
        .ok (ofOptions 50
          { filter := "title = \"a) && (b\" || done = true", zone := "Europe/Berlin" }
          "(title = \"a) && (b\" || done = true) && bucket_id = 7"
          (some (.all [e, .condition ⟨.bucketId, .equal, .single (.int 7)⟩])) bucketOrder) := by
  let o : ListOptions :=
    { filter := "title = \"a) && (b\" || done = true", zone := "Europe/Berlin" }
  have hconditions : (Filter.parse Zone.tabulated? default o.filter o.zone).toOption.bind
      (·.map (·.conditions)) =
      some [⟨.title, .equal, .single (.text "a) && (b")⟩,
        ⟨.done, .equal, .single (.bool true)⟩] := by decide +kernel
  have hid : Integer.Bounds.int64.holds 7 = true := by decide
  have hzone : (Filter.zone Zone.tabulated? o.zone).toOption.isSome = true := by decide +kernel
  cases hz : Filter.zone Zone.tabulated? o.zone with
  | error fault => simp [hz, Except.toOption] at hzone
  | ok z =>
    cases hexpr : Filter.parse Zone.tabulated? default o.filter o.zone with
    | error fault => simp [hexpr, Except.toOption] at hconditions
    | ok expr =>
      cases expr with
      | none => simp [hexpr, Except.toOption] at hconditions
      | some e =>
        have hconditions : e.conditions =
            [⟨.title, .equal, .single (.text "a) && (b")⟩,
              ⟨.done, .equal, .single (.bool true)⟩] := by
          simpa [hexpr, Except.toOption] using hconditions
        have hrefs : e.references .bucketId = false := by rw [Expr.references, hconditions]; rfl
        obtain ⟨-, -, -, hscoped, -⟩ :=
          forBucket_exact { zones := Zone.tabulated? } default o hid hz
        exact ⟨e, rfl, hconditions, hscoped e hexpr hrefs⟩

end Plan

end Kanban
