import Kanban.Proofs.Operation.Run
import Kanban.Proofs.Reorder.Synced
import Kanban.Proofs.Tasks.Arrangement

/-!
# Agreement of shown lists and the store

A drag on a list that is in step with the store yields a request that succeeds and leads to the
shown order (`ReorderList.drag_agrees`).  If the neighbors leave room, the stored key is the shown
one and the list is in step again, so along any number of such rounds the shown order is the stored
one (`ReorderList.drags_agree`).  A task of another project can be dragged into a shown list, but
the store refuses its move.
-/

namespace Kanban

/-- A drag of an item to another index, or of a task from elsewhere to an index. -/
inductive Drag where
  | within (source target : Nat)
  | into (item : Task) (index : Nat)

namespace ReorderList

/-- What a drag does to the list, and the move that is to be stored. -/
def drag (l : ReorderList Task) : Drag → Option (PendingMove × ReorderList Task)
  | .within source target => l.move source target
  | .into item index => some (l.insert item index)

end ReorderList

/-- A task that is dragged in from elsewhere comes from another bucket of the project, into one that
has room. -/
def Drag.Admitted (s : Store) (actor : Int) (q : Project) (p : Place) (m : PendingMove) :
    Drag → Prop
  | .within .. => True
  | .into item _ =>
    p.scope = .kanban ∧ (∃ t ∈ s.tasks, t.id = item.id ∧ t.projectId = q.id ∧ t.bucketId ≠ p.id) ∧
      ∀ id limit, s.moveTask actor m.id m.request ≠ .error (.bucketFull id limit)

namespace ReorderList

open Store

variable {l : ReorderList Task} {s : Store} {p : Place} {q : Project} {actor : Int}

/-! ### Placing a task -/

/-- The stored key is the shown one, and the answer moves nothing in the list, which is in step
again. -/
structure Settles (l : ReorderList Task) (m : PendingMove) (d : TaskDetail) (s : Store)
    (p : Place) : Prop where
  key : ∃ t ∈ s.tasks, t.id = m.id ∧ t.key p.scope = m.position
  stays : (l.reconcile d.task).1 = false
  order : (l.reconcile d.task).2.items.map (·.id) = l.items.map (·.id)
  synced : (l.reconcile d.task).2.Synced s p

/-- A list whose new item has the key that is stored for it settles. -/
theorem settles_of_stored (hs : s.Regular) (hscope : l.scope = p.scope)
    (hbucket : l.bucketId = match p.scope with | .kanban => some p.id | .list => none)
    {m : PendingMove} {d : TaskDetail} {x u : Task} {j : Nat} (hx : l.items[j]? = some x)
    (hrow : u.stored ∈ s.tasks)
    (hentries : l.items.map (Task.entry p.scope) =
      (s.orderedIn p.scope p.id).map (Task.entry p.scope))
    (hd : d.task = u) (hxm : x.entry p.scope = (m.id, m.position))
    (hum : u.entry p.scope = (m.id, m.position)) (hunsigned : m.position.unsignZero = m.position) :
    l.Settles m d s p := by
  obtain ⟨hreconcile, hkept⟩ := reconcile_of_entry hs hscope hentries hx (hum.trans hxm.symm)
  have hstored := Task.entry_stored hum hunsigned
  subst hd
  constructor
  · exact ⟨_, hrow, congrArg Prod.fst hstored, congrArg Prod.snd hstored⟩
  · rw [hreconcile]
  · rw [hreconcile]
    exact ids_of_entries hkept
  · rw [hreconcile]
    exact ⟨hscope, hbucket, hkept.trans hentries⟩

section

variable (hs : s.Regular) (hq : s.projectFor .write actor q.id = .ok q) (hp : p.BelongsTo s q)
  {t : Task} (item : Task) (j : Nat) (ht : t ∈ s.tasks) (htq : t.projectId = q.id)
  (hscope : l.scope = p.scope)
  (hbucket : l.bucketId = match p.scope with | .kanban => some p.id | .list => none)
  (hentries : l.items.map (Task.entry p.scope) = (s.rankedIn p t.id).map (Task.entry p.scope))
  (hid : item.id = t.id) (hj : j ≤ l.items.length)

include hscope hbucket hp in
/-- The request of a placed item goes to the scope of the list. -/
theorem forMove_request (t : Task) :
    Place.forMove q ((l.place item j).1.request.target t) (l.place item j).1.request.scope = p := by
  show Place.forMove q (l.bucketId.getD t.bucketId) l.scope = p
  rcases p with ⟨_ | _, id⟩
  · rw [hscope, hbucket]
    rfl
  · obtain rfl : id = q.id := hp
    rw [hscope]
    rfl

include hentries in
theorem before_request :
    (l.place item j).1.before = (itemBefore (s.rankedIn p t.id) j).map (·.id) := by
  show (itemBefore l.items j).map Task.id = _
  rw [← itemBefore_map, ← itemBefore_map]
  exact congrArg (itemBefore · j) (ids_of_entries hentries)

include hentries in
theorem after_request : (l.place item j).1.after = (s.rankedIn p t.id)[j]?.map (·.id) := by
  show l.items[j]?.map Task.id = _
  rw [← List.getElem?_map, ← List.getElem?_map]
  exact congrArg (fun L : List Int => L[j]?) (ids_of_entries hentries)

include hentries hscope in
theorem keys_request :
    (itemBefore l.items j).map (Orderable.key l.scope) =
      (itemBefore (s.rankedIn p t.id) j).map (·.key p.scope) ∧
      l.items[j]?.map (Orderable.key l.scope) = (s.rankedIn p t.id)[j]?.map (·.key p.scope) := by
  have hkeys := keys_of_entries hentries
  rw [hscope]
  show (itemBefore l.items j).map (·.key p.scope) = _ ∧ l.items[j]?.map (·.key p.scope) = _
  constructor
  · rw [← itemBefore_map, ← itemBefore_map, hkeys]
  · rw [← List.getElem?_map, ← List.getElem?_map, hkeys]

include hs hentries hscope in
/-- The key of a placed item is stored as it is. -/
theorem unsignZero_request :
    (l.place item j).1.position.unsignZero = (l.place item j).1.position := by
  obtain ⟨hb, ha⟩ := keys_request j hscope hentries
  refine Position.unsignZero_allocate (fun x hx => ?_) fun y hy => ?_
  · obtain ⟨u, hu, rfl⟩ := Option.map_eq_some_iff.1 (hb.symm.trans hx)
    have hmem := mem_rankedIn.1 (List.mem_of_getElem? (mem_of_itemBefore hu).2)
    exact unsignZero_key hs (mem_othersIn.1 hmem).1 p.scope
  · obtain ⟨u, hu, rfl⟩ := Option.map_eq_some_iff.1 (ha.symm.trans hy)
    exact unsignZero_key hs (mem_othersIn.1 (mem_rankedIn.1 (List.mem_of_getElem? hu))).1 p.scope

include hs hq hp ht htq hscope hbucket hentries hid hj

/-- The request of a placed item succeeds and leads to the shown order; with room between the
neighbors the list is in step again. -/
theorem place_agrees (hentry : s.MayEnter q t ((l.place item j).1.request.target t))
    (hfew : (s.othersIn p t.id).length < 2 ^ 50) :
    ∃ d s', s.moveTask actor (l.place item j).1.id (l.place item j).1.request = .ok (d, s') ∧
      (s'.orderedIn p.scope p.id).map (·.id) = (l.place item j).2.items.map (·.id) ∧
      ((l.place item j).1.needsRebalance = false →
        (l.place item j).2.Settles (l.place item j).1 d s' p) := by
  have hnum : ∀ scope, ∀ u ∈ s.tasks, (u.key scope).isNaN = false :=
    fun scope u hu => (hs.taskRows u hu).2 scope
  have hplace := (forMove_request hp item j hscope hbucket t).symm
  have hbefore := before_request item j hentries
  have hafter := after_request item j hentries
  have hlength : l.items.length = (s.rankedIn p t.id).length := by
    simpa using congrArg List.length hentries
  have hmid : (l.place item j).1.id = t.id := hid
  have hitems : ∀ scope, (l.place item j).2.items.map (Task.entry scope) =
      (l.items.map (Task.entry scope)).insertIdx j
      (Task.entry scope (item.withKey l.scope (l.place item j).1.position)) :=
        fun scope => List.map_insertIdx ..
  rw [hmid]
  rw [← htq] at hq
  obtain ⟨d, s', hmove, horder⟩ :=
    moveTask_arranges hs.tasks.nodup hnum ht hq hentry hplace (hlength ▸ hj) hbefore hafter hfew
  refine ⟨d, s', hmove, ?_, fun hroom => ?_⟩
  · have hids : (l.place item j).2.items.map (·.id) = (l.items.map (·.id)).insertIdx j item.id := by
      rw [← Task.id_withKey item l.scope (l.place item j).1.position]
      exact List.map_insertIdx ..
    rw [horder, hids, ids_of_entries hentries, hid]
  · -- The store takes the same key from the same neighbors, at once.
    obtain ⟨hb, ha⟩ := keys_request j hscope hentries
    have hfound := place_at_of_room hs.tasks.nodup (hlength ▸ hj) hb ha hroom
    rw [← hbefore, ← hafter] at hfound
    obtain ⟨hmove', horder'⟩ :=
      moveTask_of_place hs.tasks.nodup hnum ht hq hentry hplace
        (hlength ▸ hj) hbefore hafter hfew hfound
    obtain ⟨rfl, rfl⟩ := Prod.mk.inj (Except.ok.inj (hmove.symm.trans hmove'))
    have hs' := (moveTask_writes hs hmove).regular hs
    have hunsigned := unsignZero_request hs item j hscope hentries
    have hnew : (item.withKey l.scope (l.place item j).1.position).entry p.scope =
        (t.id, (l.place item j).1.position) := by
      rw [Task.entry, Task.id_withKey, hid, ← hscope, Task.key_withKey]
    have hmoved : (s.moved q t (l.place item j).1.request
        (l.place item j).1.position).entry p.scope =
        (t.id, (l.place item j).1.position) := by
      rw [Task.entry, id_moved, ← hscope]
      exact congrArg (t.id, ·) (key_moved s q t (l.place item j).1.request _)
    have hstored := Task.entry_stored hmoved hunsigned
    rw [← hmid] at hnew hmoved
    refine settles_of_stored (l := (l.place item j).2) hs' hscope hbucket
      (j := j) ?_ ?_ ?_ ?_ hnew hmoved hunsigned
    · show (l.items.insertIdx j _)[j]? = _
      rw [List.getElem?_insertIdx_self, if_pos hj]
      rfl
    · exact stored_mem_setTask ht (id_moved ..)
    · rw [hitems, hnew, hmid, hentries, ← hstored, ← List.map_insertIdx]
      exact congrArg _ horder'.symm
    · rfl

end

/-! ### Drags -/

/-- A task of the scope is one of the project. -/
theorem projectId_of_mem (hs : s.Regular) (hi : s.Integral) (hp : p.BelongsTo s q) {t : Task}
    (ht : t ∈ s.tasksIn p.scope p.id) : t.projectId = q.id := by
  rw [tasksIn_eq] at ht
  obtain ⟨hmem, hin⟩ := List.mem_filter.1 ht
  exact hi.projectId_of_contains hs hp hmem hin

/-- A task may enter a bucket of its project unless the bucket is full. -/
theorem mayEnter_of_ne_full (hs : s.Regular) (hq : s.projectFor .write actor q.id = .ok q)
    {t : Task} (ht : t ∈ s.tasks) (htq : t.projectId = q.id) {m : TaskMove}
    (hb : s.HasBucket q.id (m.target t))
    (hroom : ∀ id limit, s.moveTask actor t.id m ≠ .error (.bucketFull id limit)) :
    s.MayEnter q t (m.target t) := by
  obtain ⟨b, hmem, hid, hproject⟩ := hb
  by_contra hnot
  have hget : s.getTask t.id = .ok t := (getTask_eq_ok hs.tasks.nodup).2 ⟨ht, rfl⟩
  have hbucket : ∃ c, s.getBucket q.id (m.target t) = .ok c := by
    unfold getBucket
    cases hfind : s.buckets.find? fun b => b.id == m.target t && b.projectId == q.id with
    | some c => exact ⟨c, rfl⟩
    | none => exact absurd (List.find?_eq_none.1 hfind b hmem) (by simp [hid, hproject])
  obtain ⟨c, hc⟩ := hbucket
  obtain ⟨hout, hfull⟩ := not_or.1 hnot
  have hcap : ¬(c.limit ≤ 0 ∨ (s.tasksIn .kanban c.id).length < c.limit) :=
    fun h => hfull ⟨c, hc, h⟩
  refine hroom c.id c.limit ?_
  have hentry : s.checkEntry q t (m.target t) = .error (.bucketFull c.id c.limit) := by
    rw [checkEntry, if_neg hout, hc]
    show s.ensureCapacity c = _
    rw [ensureCapacity, if_pos (by omega)]
  simp only [moveTask, hget, htq, hq, hentry, bind, Except.bind]

section

variable (hs : s.Regular) (hi : s.Integral) (hq : s.projectFor .write actor q.id = .ok q)
  (hp : p.BelongsTo s q) (hl : l.Synced s p) (hfew : l.items.length < 2 ^ 50)

include hs hi hq hp hl hfew

/-- A drag within the list is stored. -/
private theorem move_agrees {source target : Nat} {m : PendingMove} {l' : ReorderList Task}
    (h : l.move source target = some (m, l')) :
    ∃ d s', s.moveTask actor m.id m.request = .ok (d, s') ∧
      (s'.orderedIn p.scope p.id).map (·.id) = l'.items.map (·.id) ∧
      (m.needsRebalance = false → l'.Settles m d s' p) := by
  obtain ⟨item, hitem, htarget, hplace⟩ := place_of_move h
  have hentry : ((s.orderedIn p.scope p.id).map (Task.entry p.scope))[source]? =
      some (item.entry p.scope) := by
    rw [← hl.entries, List.getElem?_map, hitem]
    rfl
  obtain ⟨t, hsource, hte⟩ := Option.map_eq_some_iff.1 ((List.getElem?_map ..).symm.trans hentry)
  have hid : item.id = t.id := (congrArg Prod.fst hte).symm
  have hmem := (s.orderedIn_perm p.scope p.id).mem_iff.1 (List.mem_of_getElem? hsource)
  have ht := Store.mem_tasks_of_mem_tasksIn hmem
  -- Without the dragged item the list shows the other tasks of the scope.
  have hnodup := nodup_orderedIn hs.tasks.nodup p.scope p.id
  have herased : (l.items.eraseIdx source).map (Task.entry p.scope) =
      (s.rankedIn p t.id).map (Task.entry p.scope) := by
    rw [← List.eraseIdx_map, hl.entries, List.eraseIdx_map, eraseIdx_eq_filter hnodup hsource]
    rfl
  have hlength : (l.items.eraseIdx source).length = (s.othersIn p t.id).length := by
    rw [← (s.rankedIn_perm p t.id).length_eq]
    simpa using congrArg List.length herased
  have hshorter : (l.items.eraseIdx source).length + 1 = l.items.length :=
    List.length_eraseIdx_add_one (List.getElem?_eq_some_iff.1 hitem).1
  have hagree :=
    place_agrees (l := { l with items := l.items.eraseIdx source }) hs hq hp item target ht
    (projectId_of_mem hs hi hp hmem) hl.scope hl.bucket herased hid htarget (.inl ?_) (by omega)
  · rwa [hplace] at hagree
  · show l.bucketId.getD t.bucketId = t.bucketId
    rw [hl.bucket]
    rcases p with ⟨_ | _, id⟩
    · have hbucket := (List.mem_filter.1 hmem).2
      exact (by simpa using hbucket : t.bucketId = id).symm
    · rfl

omit hi in
/-- A drag from another bucket is stored if the bucket has room. -/
private theorem insert_agrees {item : Task} {index : Nat} {m : PendingMove} {l' : ReorderList Task}
    (h : l.insert item index = (m, l')) (hin : (Drag.into item index).Admitted s actor q p m) :
    ∃ d s', s.moveTask actor m.id m.request = .ok (d, s') ∧
      (s'.orderedIn p.scope p.id).map (·.id) = l'.items.map (·.id) ∧
      (m.needsRebalance = false → l'.Settles m d s' p) := by
  obtain ⟨hkanban, ⟨t, ht, hid, htq, hout⟩, hroom⟩ := hin
  rcases p with ⟨scope, id⟩
  obtain rfl : scope = .kanban := hkanban
  -- The dragged task is none of those that the list shows.
  have hothers : s.rankedIn ⟨.kanban, id⟩ t.id = s.orderedIn .kanban id := by
    refine List.filter_eq_self.2 fun u hu => ?_
    have humem := (s.orderedIn_perm .kanban id).mem_iff.1 hu
    have hubucket : u.bucketId = id := by simpa using (List.mem_filter.1 humem).2
    rw [bne_iff_ne]
    intro huid
    obtain rfl := eq_of_key_eq hs.tasks.nodup (Store.mem_tasks_of_mem_tasksIn humem) ht huid
    exact hout hubucket
  have hentries := hl.entries
  rw [← hothers] at hentries
  have hlength : l.items.length = (s.othersIn ⟨.kanban, id⟩ t.id).length := by
    rw [← (s.rankedIn_perm ⟨.kanban, id⟩ t.id).length_eq]
    simpa using congrArg List.length hentries
  have hagree :=
    place_agrees hs hq hp item (min index l.items.length) ht htq hl.scope hl.bucket
      hentries hid.symm
    (Nat.min_le_right ..) ?_ (by omega)
  · rwa [show l.place item (min index l.items.length) = _ from h] at hagree
  · obtain rfl : m = (l.place item (min index l.items.length)).1 := (congrArg Prod.fst h).symm
    have htarget : (l.place item (min index l.items.length)).1.request.target t = id := by
      show l.bucketId.getD t.bucketId = id
      rw [hl.bucket]
      rfl
    have hmid : (l.place item (min index l.items.length)).1.id = t.id := hid.symm
    rw [hmid] at hroom
    exact mayEnter_of_ne_full hs hq ht htq (htarget.symm ▸ hp) hroom

/-- The request of a drag succeeds and leads to the shown order; unless the keys have to be spread
out, the list is in step again. -/
theorem drag_agrees {g : Drag} {m : PendingMove} {l' : ReorderList Task}
    (h : l.drag g = some (m, l')) (hg : g.Admitted s actor q p m) :
    ∃ d s', s.moveTask actor m.id m.request = .ok (d, s') ∧
      (s'.orderedIn p.scope p.id).map (·.id) = l'.items.map (·.id) ∧
      (m.needsRebalance = false → l'.Settles m d s' p) := by
  cases g with
  | within source target => exact move_agrees hs hi hq hp hl hfew h
  | into item index => exact insert_agrees hs hq hp hl hfew (Option.some.inj h) hg

end

/-! ### Rounds -/

/-- A drag that leaves room is stored, and the list takes in the answer. -/
inductive Round (actor : Int) (q : Project) (p : Place) : Store × ReorderList Task →
    Store × ReorderList Task → Prop where
  | mk {s s' : Store} {l l' : ReorderList Task} {g : Drag} {m : PendingMove} {d : TaskDetail}
      (few : l.items.length < 2 ^ 50) (drag : l.drag g = some (m, l'))
        (admitted : g.Admitted s actor q p m)
      (roomy : m.needsRebalance = false) (stored : s.moveTask actor m.id m.request = .ok (d, s')) :
      Round actor q p (s, l) (s', (l'.reconcile d.task).2)

/-- A move changes nothing but tasks. -/
theorem moveTask_frame (hids : (s.tasks.map (·.id)).Nodup) {id : Int} {m : TaskMove}
    {d : TaskDetail} {s' : Store} (h : s.moveTask actor id m = .ok (d, s')) :
    s'.projects = s.projects ∧ s'.shares = s.shares ∧ s'.buckets = s.buckets := by
  obtain ⟨t, q, key, placed, -, -, -, hplace, -, rfl⟩ := moveTask_eq_ok.1 h
  rw [eq_of_place hids hplace]
  exact ⟨rfl, rfl, rfl⟩

/-- What a list in step relies on. -/
structure Served (actor : Int) (q : Project) (p : Place) (c : Store × ReorderList Task) : Prop where
  regular : c.1.Regular
  integral : c.1.Integral
  allowed : c.1.projectFor .write actor q.id = .ok q
  belongs : p.BelongsTo c.1 q
  synced : c.2.Synced c.1 p

theorem Round.served {c c' : Store × ReorderList Task} (h : Round actor q p c c')
    (hc : Served actor q p c) :
    Served actor q p c' := by
  obtain ⟨few, drag, admitted, roomy, stored⟩ := h
  rename_i s s' l l' g m d
  obtain ⟨d', s'', hmove, -, hsettles⟩ :=
    drag_agrees hc.regular hc.integral hc.allowed hc.belongs hc.synced few drag admitted
  obtain ⟨rfl, rfl⟩ := Prod.mk.inj (Except.ok.inj (stored.symm.trans hmove))
  obtain ⟨hprojects, hshares, hbuckets⟩ := moveTask_frame hc.regular.tasks.nodup stored
  have hintegral := (moveTask_writes hc.regular stored).integral hc.regular hc.integral
  constructor
  · exact hintegral.1
  · exact hintegral.2
  · exact (projectFor_congr hprojects hshares).trans hc.allowed
  · have hbelongs := hc.belongs
    unfold Place.BelongsTo HasBucket at hbelongs ⊢
    rwa [hbuckets]
  · exact (hsettles roomy).synced

/-- From a list in step with the store, drags that leave room lead to lists in step.  In each of
these, the request of a drag succeeds and leads to the shown order, and if the drag leaves room, the
stored key is the shown one and the answer moves nothing. -/
theorem drags_agree (hs : s.Reachable) (hq : s.projectFor .write actor q.id = .ok q)
    (hp : p.BelongsTo s q) (hl : l.Synced s p) {s' : Store} {l' : ReorderList Task}
    (h : Relation.ReflTransGen (Round actor q p) (s, l) (s', l')) :
    l'.Synced s' p ∧
      ∀ g m l'', l'.items.length < 2 ^ 50 → l'.drag g = some (m, l'') → g.Admitted s' actor q p m →
        ∃ d s'', s'.moveTask actor m.id m.request = .ok (d, s'') ∧
          (s''.orderedIn p.scope p.id).map (·.id) = l''.items.map (·.id) ∧
          (m.needsRebalance = false → l''.Settles m d s'' p) := by
  -- By induction on the rounds: what a list in step relies on holds again after each of them.
  have hserved : Served actor q p (s', l') := by
    generalize hc' : (s', l') = c' at h ⊢
    clear hc'
    induction h with
    | refl => exact ⟨hs.regular, hs.integral, hq, hp, hl⟩
    | tail _ hround ih => exact hround.served ih
  refine ⟨hserved.synced, fun g m l'' hfew hdrag hadmitted => ?_⟩
  exact drag_agrees hserved.regular hserved.integral hserved.allowed hserved.belongs hserved.synced
    hfew hdrag hadmitted

/-- The first of three tasks is dragged to the end. -/
theorem drags_agree_sample :
    ∃ m l' d s', (shown sample ⟨.kanban, 1⟩).drag (.within 0 2) = some (m, l') ∧
    m.needsRebalance = false ∧
      sample.moveTask 1 m.id m.request = .ok (d, s') ∧
      (l'.reconcile d.task).2.Synced s' ⟨.kanban, 1⟩ := by
  let q := sample.projects.head (by decide +kernel)
  have hs : sample.Reachable := Reachable.empty.foldl_after {} _
  have hq : sample.projectFor .write 1 q.id = .ok q := by decide +kernel
  have hp : Place.BelongsTo ⟨.kanban, 1⟩ sample q := by
    show ∃ b ∈ sample.buckets, b.id = 1 ∧ b.projectId = q.id
    decide +kernel
  have hshown : shown sample ⟨.kanban, 1⟩ = ⟨sample.tasks, .kanban, some 1⟩ :=
    congrArg (ReorderList.mk · Scope.kanban (some 1)) orderedIn_sample
  have hl := synced_shown sample ⟨.kanban, 1⟩
  rw [hshown] at hl ⊢
  obtain ⟨⟨m, l'⟩, hdrag⟩ := Option.isSome_iff_exists.1
    (show (drag ⟨sample.tasks, .kanban, some 1⟩ (.within 0 2)).isSome = true by decide +kernel)
  have hroom : m.needsRebalance = false := by
    have hall : (drag ⟨sample.tasks, .kanban, some 1⟩ (.within 0 2)).all (!·.1.needsRebalance) =
        true := by
      decide +kernel
    rw [hdrag] at hall
    simpa using hall
  have hfew : sample.tasks.length < 2 ^ 50 := by decide +kernel
  obtain ⟨d, s', hmove, -, -⟩ :=
    (drags_agree hs hq hp hl .refl).2 (.within 0 2) m l' hfew hdrag trivial
  have hround :=
    Relation.ReflTransGen.single
      (Round.mk (q := q) (p := ⟨.kanban, 1⟩) hfew hdrag trivial hroom hmove)
  exact ⟨m, l', d, s', hdrag, hroom, hmove, (drags_agree hs hq hp hl hround).1⟩

/-! ### Tasks of other projects -/

/-- The store refuses to move a task into a bucket of another project. -/
theorem moveTask_foreign (hs : s.Regular) (hi : s.Integral) {id : Int} (hb : s.HasBucket q.id id)
    {t : Task} (ht : t ∈ s.tasks) (htq : t.projectId ≠ q.id) {q' : Project}
    (hq' : s.projectFor .write actor t.projectId = .ok q') {m : TaskMove}
    (hm : m.bucketId = some id) : s.moveTask actor t.id m = .error (.bucketNotFound id) := by
  have hget : s.getTask t.id = .ok t := (getTask_eq_ok hs.tasks.nodup).2 ⟨ht, rfl⟩
  have htarget : m.target t = id := by rw [TaskMove.target, hm]; rfl
  obtain ⟨c, hc, hcid, hcproject⟩ := hb
  -- An id belongs to one bucket only, so no bucket of the other project has it.
  have hforeign : ∀ b ∈ s.buckets, b.id = id → b.projectId = q.id := fun b hb hbid => by
    obtain rfl := eq_of_key_eq hs.buckets.nodup hb hc (hbid.trans hcid.symm)
    exact hcproject
  have hout : id ≠ t.bucketId := by
    rintro rfl
    obtain ⟨b, hb, hbid, hbproject⟩ := hi.taskBucket t ht
    exact htq (hbproject.symm.trans (hforeign b hb hbid))
  have hbucket : s.getBucket q'.id id = .error (.bucketNotFound id) := by
    have hnone : (s.buckets.find? fun b => b.id == id && b.projectId == q'.id) = none := by
      rw [List.find?_eq_none]
      intro b hb heq
      obtain ⟨hbid, hbproject⟩ : b.id = id ∧ b.projectId = q'.id := by simpa using heq
      exact htq ((mem_of_projectFor hq').2.symm.trans (hbproject.symm.trans (hforeign b hb hbid)))
    rw [getBucket, hnone]
  have hentry : s.checkEntry q' t (m.target t) = .error (.bucketNotFound id) := by
    rw [checkEntry, htarget, if_neg hout, hbucket]
    rfl
  simp only [moveTask, hget, hq', hentry, bind, Except.bind]

/-- Two boards with a task on each. -/
def apart : Store :=
  [.createUser { username := "ada" }, .createProject 1 { title := "Plan" },
    .createProject 1 { title := "Other" }, .createTask 1 1 { title := "shown" },
    .createTask 1 2 { title := "foreign" }].foldl (Operation.after {}) {}

/-- The task of the second board is dragged into the list of the first one, which the store
refuses. -/
theorem insert_foreign_refused :
    ∃ q t, apart.Reachable ∧ apart.projectFor .write 1 q.id = .ok q ∧
    Place.BelongsTo ⟨.kanban, 1⟩ apart q ∧
      (shown apart ⟨.kanban, 1⟩).Synced apart ⟨.kanban, 1⟩ ∧
      (shown apart ⟨.kanban, 1⟩).items.length < 2 ^ 50 ∧
      t ∈ apart.tasks ∧ t.id = 2 ∧ t.bucketId ≠ 1 ∧
      (∃ q', apart.projectFor .write 1 t.projectId = .ok q') ∧
      apart.moveTask 1 2 ((shown apart ⟨.kanban, 1⟩).insert t 0).1.request =
        .error (.bucketNotFound 1) := by
  let q := apart.projects.head (by decide +kernel)
  let t := (apart.task? 2).getD {}
  have hs : apart.Reachable := Reachable.empty.foldl_after {} _
  have ht : t ∈ apart.tasks := by decide +kernel
  have hid : t.id = 2 := by decide +kernel
  have hb : apart.HasBucket q.id 1 := by
    show ∃ b ∈ apart.buckets, b.id = 1 ∧ b.projectId = q.id
    decide +kernel
  have hq' : apart.projectFor .write 1 t.projectId =
      .ok (apart.projects.getLast (by decide +kernel)) := by
    decide +kernel
  refine ⟨q, t, hs, by decide +kernel, hb, synced_shown _ _, by decide +kernel, ht, hid,
    by decide +kernel, ⟨_, hq'⟩, ?_⟩
  have h := moveTask_foreign hs.regular hs.integral hb ht (by decide +kernel) hq'
    (m := ((shown apart ⟨.kanban, 1⟩).insert t 0).1.request) rfl
  rwa [hid] at h

end ReorderList

end Kanban
