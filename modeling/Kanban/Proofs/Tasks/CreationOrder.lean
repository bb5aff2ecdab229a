import Kanban.Proofs.Tasks.Done
import Kanban.Proofs.Tasks.KeptOrder

/-!
# The order of creation

Tasks of a bucket or a project that no operation has displaced since they were created stand in the
order of their ids (`Store.precedes_of_undisplaced`), however often the keys around them were spread
out.  The invariant of a run (`Store.InOrder`) is that their keys do not decrease with the ids, and
that none exceeds the key made of the last id, so that a new task comes behind them.
-/

namespace Kanban

/-- The operation moves a task on the board, updates a task or deletes a bucket. -/
def Operation.movesOnBoard : Operation → Bool
  | moveTask _ _ m => m.scope == .kanban
  | updateTask .. | deleteBucket .. => true
  | _ => false

namespace Store

/-- No operation of the run displaces the task.  Before the task is there none can
(`Operation.Displaces.hasTask`). -/
def Undisplaced (setup : Setup) (scope : Scope) (id : Int) : Store → List Operation → Prop
  | _, [] => True
  | s, op :: ops => ¬ op.Displaces setup s scope id ∧
      Undisplaced setup scope id (op.after setup s) ops

/-- Tasks that were not displaced have keys in the order of their ids, up to the key made of the
last id. -/
structure InOrder (s : Store) (scope : Scope) (displaced : Int → Prop) : Prop where
  le_last : ∀ t ∈ s.tasks, ¬ displaced t.id →
    (t.key scope).place ≤ (Position.initial s.lastTask .zero).place
  mono : ∀ t ∈ s.tasks, ∀ u ∈ s.tasks, ¬ displaced t.id → ¬ displaced u.id →
    t.home scope = u.home scope → t.id < u.id →
    (t.key scope).place ≤ (u.key scope).place

variable {s s' : Store} {scope : Scope} {displaced displaced' : Int → Prop}

instance decidableUndisplaced (setup : Setup) (scope : Scope) (id : Int) :
    ∀ (s : Store) (ops : List Operation), Decidable (Undisplaced setup scope id s ops)
  | _, [] => inferInstanceAs (Decidable True)
  | s, op :: ops =>
    have := decidableUndisplaced setup scope id (op.after setup s) ops
    inferInstanceAs (Decidable (_ ∧ _))

/-! ### Keys in the order of ids -/

theorem InOrder.empty (scope : Scope) (displaced : Int → Prop) : InOrder {} scope displaced :=
  ⟨by simp, by simp⟩

theorem InOrder.mono_displaced (h : s.InOrder scope displaced)
    (himp : ∀ id, displaced id → displaced' id) :
    s.InOrder scope displaced' where
  le_last t ht hstays := h.le_last t ht fun hd => hstays (himp _ hd)
  mono t ht u hu hstays hstays' :=
    h.mono t ht u hu (fun hd => hstays (himp _ hd)) fun hd => hstays' (himp _ hd)

/-- What was in order stays in order, and a new task comes behind it. -/
theorem InOrder.step (hs : s.Regular) (h : s.InOrder scope displaced)
    (hkeeps : KeepsOrder scope s s' displaced) :
    s'.InOrder scope displaced := by
  have hlast : (Position.initial s.lastTask .zero).place ≤
      (Position.initial s'.lastTask .zero).place :=
    Position.place_initial_mono (by omega) (Int.ofNat_le.2 hkeeps.lastTask)
  -- The key of an old task is its old one, or a spread one.
  have hold : ∀ t' ∈ s'.tasks, ¬ displaced t'.id → s.HasIdKey s' scope t' ∨
      ((t'.key scope).place ≤ (Position.initial s.lastTask .zero).place ∧
        ∃ t ∈ s.tasks, t'.id = t.id ∧ t'.home scope = t.home scope) := fun t' ht' hstays => by
    refine (hkeeps.rows t' ht' hstays).imp_right
      fun ⟨t, ht, hid, hhome, hkey⟩ => ⟨?_, t, ht, hid, hhome⟩
    rcases hkey with hkey | hkey
    · exact hkey.le.trans (h.le_last t ht (hid ▸ hstays))
    · exact hkey
  constructor
  · intro t' ht' hstays
    rcases hold t' ht' hstays with hnew | ⟨hle, -⟩
    · rw [hnew.key]
      have hid := hnew.id
      exact Position.place_initial_mono (by omega) hid.2
    · exact hle.trans hlast
  · intro t' ht' u' hu' hstays hstays' hhome hlt
    rcases hold u' hu' hstays' with hnew' | ⟨-, u, hu, huid, huhome⟩
    · have hid' := hnew'.id
      rw [hnew'.key]
      rcases hold t' ht' hstays with hnew | ⟨hle, -⟩
      · have hid := hnew.id
        rw [hnew.key]
        exact Position.place_initial_mono (by omega) hlt.le
      · exact hle.trans (Position.place_initial_mono (by omega) hid'.1.le)
    · rcases hold t' ht' hstays with hnew | ⟨-, t, ht, htid, hthome⟩
      · -- The later of the two was there before, so the earlier one was.
        have hid := hnew.id
        have hle := hs.tasks.le u.id (List.mem_map_of_mem hu)
        omega
      · have hsame : t.home scope = u.home scope := by rw [← hthome, ← huhome, hhome]
        have hplace := h.mono t ht u hu (htid ▸ hstays) (huid ▸ hstays') hsame (by omega)
        refine hkeeps.order t ht u hu t' ht' u' hu' htid huid (htid ▸ hstays)
          (huid ▸ hstays') hsame ?_
        rw [Task.spot, Task.spot, spot_lt_iff]
        omega

/-- A run keeps tasks in order that it does not displace. -/
theorem InOrder.foldl_after (setup : Setup) (hs : s.Reachable) (h : s.InOrder scope displaced)
    (ops : List Operation) :
    (ops.foldl (Operation.after setup) s).InOrder scope
      fun id => displaced id ∨ ¬ Undisplaced setup scope id s ops := by
  induction ops generalizing s displaced with
  | nil => exact h.mono_displaced fun id hd => .inl hd
  | cons op ops ih =>
    have hkeeps := (op.after_keepsOrder setup hs scope).mono fun id hd =>
      show displaced id ∨ op.Displaces setup s scope id from .inr hd
    have hstep := (h.mono_displaced fun id hd => .inl hd).step hs.regular hkeeps
    refine (ih (hs.after setup op) hstep).mono_displaced fun id hd => ?_
    rcases hd with (hd | hd) | hd
    · exact .inl hd
    · exact .inr fun hstays => hstays.1 hd
    · exact .inr fun hstays => hd hstays.2

/-- The keys tell tasks apart that were not displaced, or their ids do. -/
theorem InOrder.precedes (hs : s.Regular) {p : Place} (h : s.InOrder p.scope displaced) {t u : Task}
    (ht : t ∈ s.orderedIn p.scope p.id) (hu : u ∈ s.orderedIn p.scope p.id)
    (hstays : ¬ displaced t.id) (hstays' : ¬ displaced u.id) (hlt : t.id < u.id) :
    t.Precedes p.scope u := by
  obtain ⟨ht, htin⟩ := mem_orderedIn.1 ht
  obtain ⟨hu, huin⟩ := mem_orderedIn.1 hu
  have hhome : t.home p.scope = u.home p.scope :=
    (Place.contains_iff.1 htin).trans (Place.contains_iff.1 huin).symm
  have hplace := h.mono t ht u hu hstays hstays' hhome hlt
  rw [Task.precedes_iff_spot ((hs.taskRows t ht).2 _) ((hs.taskRows u hu).2 _), Task.spot,
    Task.spot, spot_lt_iff]
  omega

/-! ### Ids in the order of creation -/

/-- The id of a new task is greater than all that were given out. -/
theorem hasTask_or_lt (setup : Setup) (hs : s.Reachable) (op : Operation) :
    ∀ u ∈ (op.after setup s).tasks, s.HasTask u.id ∨ (s.lastTask : Int) < u.id := by
  intro u hu
  cases h : op.run setup s with
  | ok r =>
    have hafter : op.after setup s = r.2 := by rw [Operation.after, h]
    rcases (Operation.run_steps hs.regular hs.integral h).tasks u (hafter ▸ hu) with
        ⟨t, ht, hstep⟩ | hnew
    · exact .inl ⟨t, ht, hstep.id_eq.symm⟩
    · exact .inr hnew.id
  | error e =>
    have hafter : op.after setup s = s := by rw [Operation.after, h]
    exact .inl ⟨u, hafter ▸ hu, rfl⟩

theorem hasTask_or_lt_foldl (setup : Setup) (hs : s.Reachable) (ops : List Operation) :
    ∀ u ∈ (ops.foldl (Operation.after setup) s).tasks,
    s.HasTask u.id ∨ (s.lastTask : Int) < u.id := by
  induction ops generalizing s with
  | nil => exact fun u hu => .inl ⟨u, hu, rfl⟩
  | cons op ops ih =>
    intro u hu
    have hlast := (op.after_keepsOrder setup hs .list).lastTask
    rcases ih (hs.after setup op) u hu with ⟨v, hv, hid⟩ | hlt
    · rw [← hid]
      exact hasTask_or_lt setup hs op v hv
    · exact .inr (by omega)

theorem lt_of_not_hasTask (setup : Setup) (hs : s.Reachable) (ops : List Operation) {t u : Task}
    (ht : t ∈ s.tasks) (hu : u ∈ (ops.foldl (Operation.after setup) s).tasks)
    (hnew : ¬ s.HasTask u.id) : t.id < u.id := by
  rcases hasTask_or_lt_foldl setup hs ops u hu with hthere | hlt
  · exact absurd hthere hnew
  · exact (hs.regular.tasks.le t.id (List.mem_map_of_mem ht)).trans_lt hlt

/-- Of two tasks that no operation has displaced in a scope, the one with the smaller id precedes
the other one there.  It is the one that was created first. -/
theorem precedes_of_undisplaced (setup : Setup) (ops : List Operation) :
    (∀ p : Place, ∀ t ∈ (ops.foldl (Operation.after setup) {}).orderedIn p.scope p.id,
      ∀ u ∈ (ops.foldl (Operation.after setup) {}).orderedIn p.scope p.id,
        Undisplaced setup p.scope t.id {} ops → Undisplaced setup p.scope u.id {} ops →
        t.id < u.id → t.Precedes p.scope u) ∧
    ∀ earlier later, ops = earlier ++ later →
    ∀ t ∈ (earlier.foldl (Operation.after setup) {}).tasks,
      ∀ u ∈ (ops.foldl (Operation.after setup) {}).tasks,
        ¬ (earlier.foldl (Operation.after setup) {}).HasTask u.id → t.id < u.id := by
  constructor
  · intro p t ht u hu hstays hstays' hlt
    have horder := (InOrder.empty p.scope fun _ => False).foldl_after setup .empty ops
    have hkept : ∀ {id : Int}, Undisplaced setup p.scope id {} ops →
        ¬ (False ∨ ¬ Undisplaced setup p.scope id {} ops) :=
          fun hid hd => hd.elim id fun hnot => hnot hid
    exact horder.precedes (Reachable.empty.foldl_after setup ops).regular ht hu (hkept hstays)
      (hkept hstays') hlt
  · rintro earlier later rfl t ht u hu hnew
    rw [List.foldl_append] at hu
    exact lt_of_not_hasTask setup (Reachable.empty.foldl_after setup earlier) later ht hu hnew

/-- A run in which other tasks are moved between two ones, deleted and created. -/
def rearranged : List Operation :=
  [.createUser { username := "ada" }, .createProject 1 { title := "Plan" },
    .createTask 1 1 { title := "first" }, .createTask 1 1 { title := "second" },
    .createTask 1 1 { title := "third" },
    .moveTask 1 3 { beforeId := some 1, afterId := some 2 }, .deleteTask 1 2,
    .createTask 1 1 { title := "fourth" },
    .moveTask 1 3 { beforeId := some 4 }]

theorem precedes_of_undisplaced_rearranged :
    ∃ t u : Task, t.id = 1 ∧ u.id = 4 ∧ Undisplaced {} .kanban t.id {} rearranged ∧
      Undisplaced {} .kanban u.id {} rearranged ∧ t.Precedes .kanban u := by
  let s := rearranged.foldl (Operation.after {}) {}
  let t := (s.task? 1).get (by decide +kernel)
  let u := (s.task? 4).get (by decide +kernel)
  obtain ⟨ht, hu, hid, hid', hin, hin'⟩ : t ∈ s.tasks ∧ u ∈ s.tasks ∧ t.id = 1 ∧ u.id = 4 ∧
      Place.contains ⟨.kanban, 1⟩ t = true ∧ Place.contains ⟨.kanban, 1⟩ u = true := by
        decide +kernel
  obtain ⟨hstays, hstays'⟩ : Undisplaced {} .kanban t.id {} rearranged ∧
      Undisplaced {} .kanban u.id {} rearranged := by decide +kernel
  exact ⟨t, u, hid, hid', hstays, hstays', (precedes_of_undisplaced {} rearranged).1 ⟨.kanban, 1⟩ t
    (mem_orderedIn.2 ⟨ht, hin⟩) u (mem_orderedIn.2 ⟨hu, hin'⟩) hstays hstays' (by omega)⟩

/-- A move in the list puts the older of two tasks into the bucket of the other one, behind it. -/
def overtaking : List Operation :=
  [.createUser { username := "ada" }, .createProject 1 { title := "Plan" },
    .createBucket 1 1 { title := "Next" },
    .createTask 1 1 { title := "first", bucketId := some 1 },
    .createTask 1 1 { title := "second", bucketId := some 2 },
    .moveTask 1 1 { bucketId := some 2, scope := .list }]

/-- Moves on the board, updates and deletions of buckets are not all that takes a task out of the
order of creation. -/
theorem not_precedes_overtaking :
    overtaking.all (!Operation.movesOnBoard ·) = true ∧
      ∃ t ∈ (overtaking.foldl (Operation.after {}) {}).tasks,
      ∃ u ∈ (overtaking.foldl (Operation.after {}) {}).tasks,
        t.bucketId = u.bucketId ∧ t.id < u.id ∧ ¬ t.Precedes .kanban u := by
  decide +kernel

end Store

end Kanban
