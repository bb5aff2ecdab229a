import Kanban.Proofs.Operation.Run
import Kanban.Proofs.Tasks.Arrangement

/-!
# Next to the named neighbors

Of two neighbors that stand next to each other, a moved task ends up in the middle.  The key for a
single neighbor is made of the key of this neighbor alone: one spacing behind it, or at half of it.
So the moved task ends up next to a single neighbor exactly if no other task has a key in between
(`Store.moveTask_beside`), and otherwise it overshoots the other tasks there
(`Store.moveTask_overshoots`).
-/

namespace Kanban.Store

/-- The tasks with these ids stand in the scope, the second one right behind the first one. -/
def Adjoin (s : Store) (p : Place) (i j : Int) : Prop :=
  [i, j] <:+: (s.orderedIn p.scope p.id).map (·.id)

variable {s s' : Store} {p : Place}

/-! ### A task among the others -/

section

variable (hids : (s.tasks.map (·.id)).Nodup) (hnum : ∀ t ∈ s.tasks, (t.key p.scope).isNaN = false)

include hids hnum

theorem adjoin_iff {t u : Task} (ht : t ∈ s.orderedIn p.scope p.id)
    (hu : u ∈ s.orderedIn p.scope p.id) :
    s.Adjoin p t.id u.id ↔ t.spot p.scope < u.spot p.scope ∧
      ∀ v ∈ s.orderedIn p.scope p.id, t.spot p.scope < v.spot p.scope →
      ¬ v.spot p.scope < u.spot p.scope :=
  (pair_infix_map_iff (nodup_orderedIn hids p.scope p.id) ht hu).trans
    (pair_infix_iff_of_increasing (orderedIn_increasing hids hnum p.id) ht hu)

variable {r : Task} (hr : r ∈ s.tasks) (hin : p.contains r = true)

include hr hin

omit hnum in
/-- The tasks of the scope are one of them and the others. -/
theorem forall_orderedIn {P : Task → Prop} :
    (∀ v ∈ s.orderedIn p.scope p.id, P v) ↔ P r ∧ ∀ v ∈ s.othersIn p r.id, P v := by
  constructor
  · intro h
    refine ⟨h r (mem_orderedIn.2 ⟨hr, hin⟩), fun v hv => ?_⟩
    obtain ⟨hmem, hvin, -⟩ := mem_othersIn.1 hv
    exact h v (mem_orderedIn.2 ⟨hmem, hvin⟩)
  · rintro ⟨hPr, hP⟩ v hv
    obtain ⟨hmem, hvin⟩ := mem_orderedIn.1 hv
    by_cases hid : v.id = r.id
    · rwa [eq_of_key_eq hids hmem hr hid]
    · exact hP v (mem_othersIn.2 ⟨hmem, hvin, hid⟩)

/-- A task stands right behind another one exactly if it precedes all that the other one
precedes. -/
theorem adjoin_behind_iff {b : Task} (hb : b ∈ s.othersIn p r.id) :
    s.Adjoin p b.id r.id ↔ b.Precedes p.scope r ∧
      ∀ u ∈ s.othersIn p r.id, b.Precedes p.scope u → r.Precedes p.scope u := by
  obtain ⟨hmem, hbin, -⟩ := mem_othersIn.1 hb
  rw [adjoin_iff hids hnum (mem_orderedIn.2 ⟨hmem, hbin⟩) (mem_orderedIn.2 ⟨hr, hin⟩),
    forall_orderedIn hids hr hin, Task.precedes_iff_spot (hnum b hmem) (hnum r hr)]
  refine and_congr_right fun _ => ?_
  constructor
  · rintro ⟨-, h⟩ u hu hbu
    obtain ⟨hu', -, hne⟩ := mem_othersIn.1 hu
    rw [Task.precedes_iff_spot (hnum b hmem) (hnum u hu')] at hbu
    rw [Task.precedes_iff_spot (hnum r hr) (hnum u hu')]
    exact lt_of_le_of_ne (not_lt.1 (h u hu hbu)) fun heq => hne (eq_of_spot_eq heq.symm)
  · intro h
    refine ⟨fun _ => lt_irrefl _, fun u hu hbu => ?_⟩
    have hu' := (mem_othersIn.1 hu).1
    rw [← Task.precedes_iff_spot (hnum b hmem) (hnum u hu')] at hbu
    exact lt_asymm ((Task.precedes_iff_spot (hnum r hr) (hnum u hu')).1 (h u hu hbu))

/-- A task stands right ahead of another one exactly if all that precede the other one precede
it. -/
theorem adjoin_ahead_iff {a : Task} (ha : a ∈ s.othersIn p r.id) :
    s.Adjoin p r.id a.id ↔ r.Precedes p.scope a ∧
      ∀ u ∈ s.othersIn p r.id, u.Precedes p.scope a → u.Precedes p.scope r := by
  obtain ⟨hmem, hain, -⟩ := mem_othersIn.1 ha
  rw [adjoin_iff hids hnum (mem_orderedIn.2 ⟨hr, hin⟩) (mem_orderedIn.2 ⟨hmem, hain⟩),
    forall_orderedIn hids hr hin, Task.precedes_iff_spot (hnum r hr) (hnum a hmem)]
  refine and_congr_right fun _ => ?_
  constructor
  · rintro ⟨-, h⟩ u hu hua
    obtain ⟨hu', -, hne⟩ := mem_othersIn.1 hu
    rw [Task.precedes_iff_spot (hnum u hu') (hnum a hmem)] at hua
    rw [Task.precedes_iff_spot (hnum u hu') (hnum r hr)]
    exact lt_of_le_of_ne (not_lt.1 fun hru => h u hu hru hua) fun heq => hne (eq_of_spot_eq heq)
  · intro h
    refine ⟨fun hlt => absurd hlt (lt_irrefl _), fun u hu hru hua => ?_⟩
    have hu' := (mem_othersIn.1 hu).1
    rw [← Task.precedes_iff_spot (hnum u hu') (hnum a hmem)] at hua
    exact lt_asymm hru ((Task.precedes_iff_spot (hnum u hu') (hnum r hr)).1 (h u hu hua))

end

/-- A row that is put among the others stands next to one of them if no other one stands in
between. -/
theorem adjoin_setTask (hids : (s.tasks.map (·.id)).Nodup)
    (hnum : ∀ t ∈ s.tasks, (t.key p.scope).isNaN = false) {t r : Task} (ht : t ∈ s.tasks)
    (hid : r.id = t.id) (hin : p.contains r = true) (hkey : (r.key p.scope).isNaN = false)
    {u : Task} (hu : u ∈ s.othersIn p t.id) :
    ((s.tick.setTask r).Adjoin p u.id t.id ↔ u.Precedes p.scope r ∧
      ∀ v ∈ s.othersIn p t.id, u.Precedes p.scope v → r.Precedes p.scope v) ∧
    ((s.tick.setTask r).Adjoin p t.id u.id ↔ r.Precedes p.scope u ∧
      ∀ v ∈ s.othersIn p t.id, v.Precedes p.scope u → v.Precedes p.scope r) := by
  have hids' := nodup_setTask hids r
  have hnum' := isNaN_key_setTask hnum hkey
  have hrow := stored_mem_setTask ht hid
  have hrowIn : p.contains r.stored = true := by simpa using hin
  have hothers := othersIn_setTask s p r
  rw [hid] at hothers
  have hrowId : r.stored.id = t.id := hid
  rw [← hothers, ← hrowId] at hu
  have hbehind := adjoin_behind_iff hids' hnum' hrow hrowIn hu
  have hahead := adjoin_ahead_iff hids' hnum' hrow hrowIn hu
  simp only [hrowId, hothers, Task.precedes_stored, Task.stored_precedes] at hbehind hahead
  exact ⟨hbehind, hahead⟩

/-- Whatever stands on the far side of a neighbor stands on the far side of all that is between this
neighbor and the next one. -/
theorem precedes_of_pair (hids : (s.tasks.map (·.id)).Nodup)
    (hnum : ∀ t ∈ s.tasks, (t.key p.scope).isNaN = false) {moving : Int} {x y r : Task}
    (hx : x ∈ s.othersIn p moving) (hy : y ∈ s.othersIn p moving)
    (hpair : [x.id, y.id] <:+: (s.rankedIn p moving).map (·.id))
    (hr : (r.key p.scope).isNaN = false) (hxr : x.Precedes p.scope r) (hry : r.Precedes p.scope y) :
    (∀ v ∈ s.othersIn p moving, x.Precedes p.scope v → r.Precedes p.scope v) ∧
      ∀ v ∈ s.othersIn p moving, v.Precedes p.scope y → v.Precedes p.scope r := by
  have hspot : ∀ u ∈ s.othersIn p moving, (u.key p.scope).isNaN = false :=
    fun u hu => hnum u (mem_othersIn.1 hu).1
  have hx' := mem_rankedIn.2 hx
  have hy' := mem_rankedIn.2 hy
  rw [pair_infix_map_iff (nodup_rankedIn hids p moving) hx' hy',
    pair_infix_iff_of_increasing (rankedIn_increasing hids hnum moving) hx' hy'] at hpair
  rw [Task.precedes_iff_spot (hspot x hx) hr] at hxr
  rw [Task.precedes_iff_spot hr (hspot y hy)] at hry
  constructor
  · intro v hv hxv
    rw [Task.precedes_iff_spot (hspot x hx) (hspot v hv)] at hxv
    rw [Task.precedes_iff_spot hr (hspot v hv)]
    exact hry.trans_le (not_lt.1 (hpair.2 v (mem_rankedIn.2 hv) hxv))
  · intro v hv hvy
    rw [Task.precedes_iff_spot (hspot v hv) (hspot y hy)] at hvy
    rw [Task.precedes_iff_spot (hspot v hv) hr]
    exact (not_lt.1 fun hxv => hpair.2 v (mem_rankedIn.2 hv) hxv hvy).trans_lt hxr

/-! ### Moves next to neighbors -/

/-- Beside a given neighbor, one that is not given has no key. -/
theorem eq_none_of_neighborKeys {moving : Int} {before after : Option Int} {b a : Option Double}
    (h : s.neighborKeys p moving before after = .ok (b, a))
    (hgiven : ¬ (before = none ∧ after = none)) :
    (before = none → b = none) ∧ (after = none → a = none) := by
  rcases neighborKeys_eq_ok.1 h with ⟨hbefore, hafter, -⟩ | ⟨-, hb, ha⟩
  · exact absurd ⟨hbefore, hafter⟩ hgiven
  · constructor
    · rintro rfl
      exact (Except.ok.inj hb).symm
    · rintro rfl
      exact (Except.ok.inj ha).symm

section

variable (hids : (s.tasks.map (·.id)).Nodup) (hnum : ∀ t ∈ s.tasks, (t.key p.scope).isNaN = false)
  {t r : Task} (ht : t ∈ s.tasks) (hid : r.id = t.id) (hin : p.contains r = true)
  (hfew : (s.othersIn p t.id).length < 2 ^ 50) {before after : Option Int} {placed : Store}
  (h : s.place p t.id before after = .ok (r.key p.scope, placed))

include hids hnum ht hid hin hfew h

/-- The task in its place stands between the neighbors, and next to each one from which no other
task separates it. -/
theorem adjoin_placed {u : Task} (hu : u ∈ placed.othersIn p t.id) :
    (before = some u.id → ((placed.tick.setTask r).Adjoin p u.id t.id ↔
      ∀ v ∈ placed.othersIn p t.id, u.Precedes p.scope v → r.Precedes p.scope v)) ∧
    (after = some u.id → ((placed.tick.setTask r).Adjoin p t.id u.id ↔
      ∀ v ∈ placed.othersIn p t.id, v.Precedes p.scope u → v.Precedes p.scope r)) := by
  have hbetween := between_of_place hids hfew hnum h
  have hadjoin :=
    adjoin_setTask (nodup_place hids h) (isNaN_key_place hids hnum h)
      (mem_tasks_place hids h ht) hid hin
    (Double.isNaN_of_isFinite hbetween.finite) hu
  constructor
  · intro hbefore
    have hur : u.Precedes p.scope r := .inl (hbetween.above u hu hbefore)
    exact hadjoin.1.trans (and_iff_right hur)
  · intro hafter
    have hru : r.Precedes p.scope u := .inl (hbetween.below u hu hafter)
    exact hadjoin.2.trans (and_iff_right hru)

theorem adjoin_between {i j : Int} (hbefore : before = some i) (hafter : after = some j)
    (hpair : [i, j] <:+: (s.rankedIn p t.id).map (·.id)) :
    (placed.tick.setTask r).Adjoin p i t.id ∧ (placed.tick.setTask r).Adjoin p t.id j := by
  have hids' := nodup_place hids h
  have hnum' := isNaN_key_place hids hnum h
  have hbetween := between_of_place hids hfew hnum h
  obtain ⟨b, a, hkeys, -⟩ := keys_of_place h
  obtain ⟨hmemBefore, hmemAfter⟩ := (exists_neighborKeys hids').1 ⟨b, a, hkeys⟩
  obtain ⟨x, hx, rfl⟩ := hmemBefore i hbefore
  obtain ⟨y, hy, rfl⟩ := hmemAfter j hafter
  -- The others keep their ranks while the place is sought, so the neighbors are still next to each
  -- other.
  rw [← ids_rankedIn_place hids hnum hfew h] at hpair
  obtain ⟨hbehind, hahead⟩ :=
    precedes_of_pair hids' hnum' hx hy hpair (Double.isNaN_of_isFinite hbetween.finite)
    (.inl (hbetween.above x hx hbefore)) (.inl (hbetween.below y hy hafter))
  constructor
  · exact ((adjoin_placed hids hnum ht hid hin hfew h hx).1 hbefore).2 hbehind
  · exact ((adjoin_placed hids hnum ht hid hin hfew h hy).2 hafter).2 hahead

theorem adjoin_behind {i : Int} (hbefore : before = some i) (hafter : after = none) :
    ∃ b ∈ placed.othersIn p t.id, b.id = i ∧ ((placed.tick.setTask r).Adjoin p i t.id ↔
      ∀ u ∈ placed.othersIn p t.id, b.Precedes p.scope u →
        (t.withKey p.scope (Position.allocate (some (b.key p.scope)) none)).Precedes
          p.scope u) := by
  have hids' := nodup_place hids h
  obtain ⟨b, a, hkeys, hfound⟩ := keys_of_place h
  obtain ⟨x, hx, rfl⟩ := ((exists_neighborKeys hids').1 ⟨b, a, hkeys⟩).1 i hbefore
  have hkey := (of_keyBetween?_eq_some hfound).1
  rw [neighborKeys_before hids' hkeys hx hbefore,
    (eq_none_of_neighborKeys hkeys (by simp [hbefore])).2 hafter] at hkey
  refine ⟨x, hx, rfl, ((adjoin_placed hids hnum ht hid hin hfew h hx).1 hbefore).trans ?_⟩
  refine forall₃_congr fun v _ _ => (Task.precedes_congr ?_ ?_).1
  · rw [hkey, Task.key_withKey]
  · rw [hid, Task.id_withKey]

theorem adjoin_ahead {j : Int} (hbefore : before = none) (hafter : after = some j) :
    ∃ a ∈ placed.othersIn p t.id, a.id = j ∧ ((placed.tick.setTask r).Adjoin p t.id j ↔
      ∀ u ∈ placed.othersIn p t.id, u.Precedes p.scope a →
        u.Precedes p.scope (t.withKey p.scope
          (Position.allocate none (some (a.key p.scope))))) := by
  have hids' := nodup_place hids h
  obtain ⟨b, a, hkeys, hfound⟩ := keys_of_place h
  obtain ⟨x, hx, rfl⟩ := ((exists_neighborKeys hids').1 ⟨b, a, hkeys⟩).2 j hafter
  have hkey := (of_keyBetween?_eq_some hfound).1
  rw [neighborKeys_after hids' hkeys hx hafter,
    (eq_none_of_neighborKeys hkeys (by simp [hafter])).1 hbefore] at hkey
  refine ⟨x, hx, rfl, ((adjoin_placed hids hnum ht hid hin hfew h hx).2 hafter).trans ?_⟩
  refine forall₃_congr fun v _ _ => (Task.precedes_congr ?_ ?_).2
  · rw [hkey, Task.key_withKey]
  · rw [hid, Task.id_withKey]

end

/-- A task that is moved between two tasks next to each other stands next to both.  A task that is
moved behind or ahead of a single task stands next to it exactly if no other task stands in between,
given the key that this one task yields: one spacing behind it, or half of it (one spacing ahead of
it, if it is not positive).  So it does at the end or at the head of the scope. -/
theorem moveTask_beside (h : s.Reachable) {t : Task} {q : Project} {m : TaskMove} {actor : Int}
    (ht : t ∈ s.tasks) (hq : s.projectFor .write actor t.projectId = .ok q)
    (hp : p = .forMove q (m.target t) m.scope) (hfew : (s.othersIn p t.id).length < 2 ^ 50)
    {d : TaskDetail} (hmove : s.moveTask actor t.id m = .ok (d, s')) :
    (∀ i j, m.beforeId = some i → m.afterId = some j → [i, j] <:+: (s.rankedIn p t.id).map (·.id) →
      s'.Adjoin p i t.id ∧ s'.Adjoin p t.id j) ∧
    (∀ i, m.beforeId = some i → m.afterId = none → ∃ b ∈ s'.othersIn p t.id, b.id = i ∧
      (s'.Adjoin p i t.id ↔ ∀ u ∈ s'.othersIn p t.id, b.Precedes p.scope u →
        (t.withKey p.scope (Position.allocate (some (b.key p.scope)) none)).Precedes p.scope u)) ∧
    ∀ j, m.beforeId = none → m.afterId = some j → ∃ a ∈ s'.othersIn p t.id, a.id = j ∧
      (s'.Adjoin p t.id j ↔ ∀ u ∈ s'.othersIn p t.id, u.Precedes p.scope a →
        u.Precedes p.scope (t.withKey p.scope
          (Position.allocate none (some (a.key p.scope))))) := by
  have hids := h.regular.tasks.nodup
  have hnum : ∀ u ∈ s.tasks, (u.key p.scope).isNaN = false :=
    fun u hu => (h.regular.taskRows u hu).2 _
  obtain ⟨t', q', key, placed, ht', hq', -, hplace, -, rfl⟩ := moveTask_eq_ok.1 hmove
  obtain rfl := Except.ok.inj (((getTask_eq_ok hids).2 ⟨ht, rfl⟩).symm.trans ht')
  obtain rfl := Except.ok.inj (hq.symm.trans hq')
  have hin : p.contains (placed.moved q t m key) = true := by
    rw [hp]
    exact contains_moved (mem_of_projectFor hq).2.symm
  have hid : (placed.moved q t m key).id = t.id := id_moved ..
  have hkey : (placed.moved q t m key).key p.scope = key := by rw [hp, scope_forMove, key_moved]
  have hothers := othersIn_setTask placed p (placed.moved q t m key)
  rw [hid] at hothers
  rw [hothers]
  rw [← hp] at hplace
  nth_rewrite 1 [← hkey] at hplace
  refine ⟨?_, ?_, ?_⟩
  · intro i j
    exact adjoin_between hids hnum ht hid hin hfew hplace
  · intro i
    exact adjoin_behind hids hnum ht hid hin hfew hplace
  · intro j
    exact adjoin_ahead hids hnum ht hid hin hfew hplace

/-- A board with four tasks in its only bucket. -/
def queue : Store := (Operation.createTask 1 1 { title := "fourth" }).after {} sample

theorem reachable_queue : queue.Reachable := .after {} _ (Reachable.empty.foldl_after {} _)

theorem orderedIn_queue : queue.orderedIn .kanban 1 = queue.tasks :=
  orderedIn_eq (by decide +kernel) (List.Perm.of_eq (by decide +kernel)) (by decide +kernel)

/-- The last task is moved between the first two ones. -/
theorem moveTask_beside_queue :
    ∃ d s', queue.moveTask 1 4 { beforeId := some 1, afterId := some 2 } = .ok (d, s') ∧
      s'.Adjoin ⟨.kanban, 1⟩ 1 4 ∧ s'.Adjoin ⟨.kanban, 1⟩ 4 2 := by
  let m : TaskMove := { beforeId := some 1, afterId := some 2 }
  let t := (queue.task? 4).getD {}
  let q := (queue.project? 1).get (by decide +kernel)
  obtain ⟨ht, hid⟩ : t ∈ queue.tasks ∧ t.id = 4 := by decide +kernel
  have hq : queue.projectFor .write 1 t.projectId = .ok q := by decide +kernel
  have hp : ⟨.kanban, 1⟩ = Place.forMove q (m.target t) m.scope :=
    congrArg (Place.mk .kanban) (show 1 = m.target t by decide +kernel)
  let r := (queue.moveTask 1 4 m).toOption.get (by decide +kernel)
  have hmove : queue.moveTask 1 4 m = .ok r := toOption_eq_some.1 (Option.some_get _).symm
  have hpair : [1, 2] <:+: (queue.rankedIn ⟨.kanban, 1⟩ t.id).map (·.id) := by
    rw [rankedIn, orderedIn_queue]
    decide +kernel
  rw [← hid] at hmove
  have hbeside :=
    (moveTask_beside reachable_queue ht hq hp (by decide +kernel) hmove).1 1 2 rfl rfl hpair
  rw [hid] at hmove hbeside
  exact ⟨r.1, r.2, hmove, hbeside⟩

/-- The last task is moved behind the second one, gets the key of the third one, and stays behind
it. -/
theorem moveTask_overshoots :
    queue.Reachable ∧ ∃ d s', queue.moveTask 1 4 { beforeId := some 2 } = .ok (d, s') ∧
      ¬ s'.Adjoin ⟨.kanban, 1⟩ 2 4 := by
  let r := (queue.moveTask 1 4 { beforeId := some 2 }).toOption.get (by decide +kernel)
  have hmove : queue.moveTask 1 4 { beforeId := some 2 } = .ok r :=
    toOption_eq_some.1 (Option.some_get _).symm
  have horder : r.2.orderedIn .kanban 1 = r.2.tasks :=
    orderedIn_eq (by decide +kernel) (List.Perm.of_eq (by decide +kernel)) (by decide +kernel)
  refine ⟨reachable_queue, r.1, r.2, hmove, ?_⟩
  rw [Adjoin, horder]
  decide +kernel

end Kanban.Store
