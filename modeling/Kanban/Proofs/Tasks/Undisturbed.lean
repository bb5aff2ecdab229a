import Kanban.Proofs.Position.Exhaustion
import Kanban.Proofs.Tasks.Move

/-!
# What a move leaves as it is

A move writes to tasks only.  If the gap between the stored keys of the neighbors holds the key that
it yields, the moved task is the only one that changes.  Otherwise the other tasks of the scope get
new keys in their old order (`Store.SpreadOut`).  Of the moved task itself a move changes the key,
and with the bucket what belongs to it (`Store.moveTask_undisturbed`).
-/

namespace Kanban.Store

open Position (Gap)

/-- `f` gives each task of the scope, the moving one aside, a key of its own, and changes nothing
else of them and nothing outside of the scope.  The tasks keep their order, in which their keys
increase. -/
structure SpreadOut (s s' : Store) (p : Place) (moving : Int) (f : Task → Task) : Prop where
  outside : ∀ u ∈ s.tasks, u.id ≠ moving → p.contains u = false → f u = u
  inside : ∀ u ∈ s.othersIn p moving, ∃ x, f u = u.stored.withKey p.scope x
  order : s'.rankedIn p moving = (s.rankedIn p moving).map f
  increasing : (s'.rankedIn p moving).Pairwise (·.key p.scope < ·.key p.scope)

variable {s s' placed : Store} {p : Place} {moving : Int} {before after : Option Int} {key : Double}

/-! ### Spreading out -/

/-- What is done to the moving task afterwards does not matter as long as the order stays. -/
theorem SpreadOut.congr {f g : Task → Task} (h : s.SpreadOut placed p moving g)
    (hranked : s'.rankedIn p moving = placed.rankedIn p moving)
    (hsame : ∀ u, u.id ≠ moving → f u = g u) :
    s.SpreadOut s' p moving f where
  outside u hu hne hout := (hsame u hne).trans (h.outside u hu hne hout)
  inside u hu := by
    rw [hsame u (mem_othersIn.1 hu).2.2]
    exact h.inside u hu
  order := by
    rw [hranked, h.order]
    exact List.map_congr_left fun u hu => (hsame u (mem_othersIn.1 (mem_rankedIn.1 hu)).2.2).symm
  increasing := hranked ▸ h.increasing

theorem stored_withKey (t : Task) (scope : Scope) (x : Double) :
    (t.withKey scope x).stored = t.stored.withKey scope x.unsignZero := by
  cases scope <;> rfl

theorem spreadOut_rebalance (hids : (s.tasks.map (·.id)).Nodup)
    (hnum : ∀ t ∈ s.tasks, (t.key p.scope).isNaN = false)
    (hfew : (s.othersIn p moving).length < 2 ^ 50) :
    s.SpreadOut (s.rebalance p moving) p moving (Task.rekeyed p.scope (s.spreadKeys p moving)) where
  outside u hu _ hout := by
    refine rekeyed_of_not_mem ?_ hids hu
    intro hothers
    simp [(mem_othersIn.1 hothers).2.1] at hout
  inside u hu := by
    obtain ⟨i, hi⟩ := List.mem_iff_getElem?.1 (mem_rankedIn.2 hu)
    exact ⟨_, (rekeyed_ranked hids hfew hi).trans (stored_withKey u p.scope _)⟩
  order := rankedIn_rebalance hids hnum hfew
  increasing := by
    rw [rankedIn_rebalance hids hnum hfew, List.pairwise_map]
    refine (rankedIn_increasing hids hnum moving).imp_of_mem fun {u v} hu hv huv => ?_
    exact (rebalance_lt_iff hids hnum hfew (mem_rankedIn.1 hu) (mem_rankedIn.1 hv)).2 huv

/-! ### The search for a place -/

/-- Where the gap between the neighbors holds the key that it yields, the search for a place changes
nothing; otherwise it spreads out the others. -/
theorem exists_of_place (hids : (s.tasks.map (·.id)).Nodup)
    (hnum : ∀ t ∈ s.tasks, (t.key p.scope).isNaN = false)
    (hfew : (s.othersIn p moving).length < 2 ^ 50)
    (h : s.place p moving before after = .ok (key, placed)) :
    ∃ b a g, s.neighborKeys p moving before after = .ok (b, a) ∧
    placed = { s with tasks := s.tasks.map g } ∧
      (∀ u, (g u).id = u.id) ∧ (Gap.Holds ⟨b, a⟩ (Position.allocate b a) → ∀ u, g u = u) ∧
      (¬ Gap.Holds ⟨b, a⟩ (Position.allocate b a) → s.SpreadOut placed p moving g) := by
  obtain ⟨b, a, hkeys, ⟨hkey, rfl⟩ | ⟨hnone, rfl, -⟩⟩ := place_eq_ok.1 h
  · obtain ⟨rfl, hroom⟩ := of_keyBetween?_eq_some hkey
    refine ⟨b, a, id, hkeys, ?_, ?_, ?_, ?_⟩
    · rw [List.map_id]
    · intro u
      rfl
    · intro _ u
      rfl
    · intro hfull
      exact absurd (Position.needsRebalance_eq_false.1 hroom) hfull
  · refine ⟨b, a, _, hkeys, rebalance_eq hids p moving, ?_, ?_, ?_⟩
    · intro u
      exact Task.id_rekeyed
    · intro hholds
      have hfull := of_keyBetween?_eq_none hnone
      rw [Position.needsRebalance_eq_false.2 hholds] at hfull
      cases hfull
    · intro _
      exact spreadOut_rebalance hids hnum hfew

/-! ### Moves -/

/-- A changed row is put among rows that may have changed before. -/
theorem setTask_map {g : Task → Task} (hid : ∀ u, (g u).id = u.id) (u : Task) :
    ∃ f, ({ s with tasks := s.tasks.map g } : Store).tick.setTask u =
        { s with tasks := s.tasks.map f, clock := s.clock + 1 } ∧
      (∀ x, x.id = u.id → f x = u.stored) ∧ ∀ x, x.id ≠ u.id → f x = g x := by
  refine ⟨fun x => if (g x).id == u.id then u.stored else g x, ?_, ?_, ?_⟩
  · simp only [tick, setTask, List.map_map]
    rfl
  · intro x hx
    exact if_pos (by simp [hid, hx])
  · intro x hx
    exact if_neg (by simp [hid, hx])

section

variable {q : Project} {t : Task} {m : TaskMove}

theorem stored_moved_of_stays (s : Store) (q : Project) (key : Double)
    (h : m.target t = t.bucketId) :
    (s.moved q t m key).stored =
      { t.stored.withKey m.scope key.unsignZero with updated := s.now } := by
  rw [moved_of_stays _ _ _ _ _ h]
  cases m.scope <;> rfl

theorem stored_moved_of_enters (s : Store) (q : Project) (key : Double)
    (h : m.target t ≠ t.bucketId) :
    ∃ done doneAt x, (s.moved q t m key).stored =
      { t.stored.withKey m.scope key.unsignZero with
        bucketId := m.target t, done, doneAt, kanbanPosition := x, updated := s.now } := by
  obtain ⟨done, doneAt, x, hmoved⟩ := moved_of_enters s q t m key h
  refine ⟨done, doneAt, x.unsignZero, ?_⟩
  rw [hmoved]
  cases m.scope <;> rfl

/-- Putting the moved task into its row leaves the order of the others as the search for a place
left it. -/
theorem rankedIn_moved (hids : (s.tasks.map (·.id)).Nodup)
    (hnum : ∀ u ∈ s.tasks, (u.key p.scope).isNaN = false)
    (hfew : (s.othersIn p t.id).length < 2 ^ 50) (hscope : p.scope = m.scope)
    (h : s.place p t.id before after = .ok (key, placed)) :
    (placed.tick.setTask (placed.moved q t m key)).rankedIn p t.id = placed.rankedIn p t.id := by
  have hkey : ((placed.moved q t m key).key p.scope).isNaN = false := by
    rw [hscope, key_moved]
    exact Double.isNaN_of_isFinite (between_of_place hids hfew hnum h).finite
  have hranked := rankedIn_setTask (nodup_place hids h) (isNaN_key_place hids hnum h) hkey
  rwa [id_moved] at hranked

/-- A successful move changes no table but that of the tasks.  There it changes nothing but the
moved task if the gap between the neighbors holds the key that it yields, and otherwise only spreads
out the other tasks of the scope.  Of the moved task it changes the key in the scope and, if the
bucket changes, the bucket, the mark with its time, and the key in the bucket.  Rows that are
written are kept without the sign of a zero. -/
theorem moveTask_undisturbed (hids : (s.tasks.map (·.id)).Nodup)
    (hfin : ∀ t ∈ s.tasks, t.position.isFinite = true ∧ t.kanbanPosition.isFinite = true)
    {actor : Int} (ht : t ∈ s.tasks) (hq : s.projectFor .write actor t.projectId = .ok q)
    (hfew : (s.othersIn (.forMove q (m.target t) m.scope) t.id).length < 2 ^ 50) {d : TaskDetail}
    (h : s.moveTask actor t.id m = .ok (d, s')) :
    ∃ b a f, s.neighborKeys (.forMove q (m.target t) m.scope) t.id m.beforeId m.afterId =
      .ok (b, a) ∧
      s' = { s with tasks := s.tasks.map f, clock := s.clock + 1 } ∧
      (Gap.Holds ⟨b, a⟩ (Position.allocate b a) → ∀ u ∈ s.tasks, u.id ≠ t.id → f u = u) ∧
      (¬ Gap.Holds ⟨b, a⟩ (Position.allocate b a) →
        s.SpreadOut s' (.forMove q (m.target t) m.scope) t.id f) ∧
      (m.target t = t.bucketId → ∃ x, f t = { t.stored.withKey m.scope x with updated := s.now }) ∧
      (m.target t ≠ t.bucketId → ∃ x done doneAt y, f t =
        { t.stored.withKey m.scope x with
          bucketId := m.target t, done, doneAt, kanbanPosition := y, updated := s.now }) := by
  have hnum : ∀ scope, ∀ u ∈ s.tasks, (u.key scope).isNaN = false := by
    rintro (_ | _) u hu
    · exact Double.isNaN_of_isFinite (hfin u hu).2
    · exact Double.isNaN_of_isFinite (hfin u hu).1
  obtain ⟨t', q', key, placed, ht', hq', -, hplace, -, rfl⟩ := moveTask_eq_ok.1 h
  obtain rfl := Except.ok.inj (((getTask_eq_ok hids).2 ⟨ht, rfl⟩).symm.trans ht')
  obtain rfl := Except.ok.inj (hq.symm.trans hq')
  have hscope : (Place.forMove q (m.target t) m.scope).scope = m.scope := by cases m.scope <;> rfl
  have hranked := rankedIn_moved (q := q) hids (hnum _) hfew hscope hplace
  obtain ⟨b, a, g, hkeys, rfl, hid, hroom, hfull⟩ := exists_of_place hids (hnum _) hfew hplace
  obtain ⟨f, hf, hself, hother⟩ :=
    setTask_map hid (moved { s with tasks := s.tasks.map g } q t m key)
  rw [id_moved] at hself hother
  refine ⟨b, a, f, hkeys, hf, ?_, ?_, ?_, ?_⟩
  · intro hholds u _ hne
    rw [hother u hne, hroom hholds]
  · intro hholds
    exact (hfull hholds).congr hranked hother
  · intro hstays
    exact ⟨_, (hself t rfl).trans (stored_moved_of_stays _ _ _ hstays)⟩
  · intro henters
    obtain ⟨done, doneAt, x, hmoved⟩ :=
      stored_moved_of_enters { s with tasks := s.tasks.map g } q key henters
    exact ⟨_, done, doneAt, x, (hself t rfl).trans hmoved⟩

end

/-- The third task gets a place between two tasks with equal keys, which are spread out for it. -/
theorem moveTask_undisturbed_tied :
    ∃ d s' f, tied.moveTask 1 3 { beforeId := some 1, afterId := some 2 } = .ok (d, s') ∧
      s' = { tied with tasks := tied.tasks.map f, clock := tied.clock + 1 } ∧
      tied.SpreadOut s' ⟨.kanban, 1⟩ 3 f := by
  let m : TaskMove := { beforeId := some 1, afterId := some 2 }
  let t := (tied.task? 3).getD {}
  let q := (tied.project? 1).get (by decide +kernel)
  have hids : (tied.tasks.map (·.id)).Nodup := by decide +kernel
  obtain ⟨ht, hid⟩ : t ∈ tied.tasks ∧ t.id = 3 := by decide +kernel
  have hq : tied.projectFor .write 1 t.projectId = .ok q := by decide +kernel
  have hfew : (tied.othersIn (.forMove q (m.target t) m.scope) t.id).length < 2 ^ 50 := by
    decide +kernel
  obtain ⟨d, s', hmove⟩ :=
    exists_moveTask hids (by decide +kernel) ht hq (.inl rfl) hfew (by decide +kernel)
  obtain ⟨b, a, f, hkeys, hs', -, hspread, -⟩ :=
    moveTask_undisturbed hids (by decide +kernel) ht hq hfew hmove
  have hequal : tied.neighborKeys (.forMove q (m.target t) m.scope) t.id m.beforeId m.afterId =
      .ok (some Position.spacing, some Position.spacing) := by decide +kernel
  obtain ⟨rfl, rfl⟩ := Prod.mk.inj (Except.ok.inj (hequal.symm.trans hkeys))
  have hspread := hspread (by decide +kernel)
  have hbucket : Place.forMove q (m.target t) m.scope = ⟨.kanban, 1⟩ :=
    congrArg (Place.mk .kanban) (show m.target t = 1 by decide +kernel)
  rw [hid] at hmove hspread
  rw [hbucket] at hspread
  exact ⟨d, s', f, hmove, hs', hspread⟩

end Kanban.Store
