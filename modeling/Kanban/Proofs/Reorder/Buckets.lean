import Kanban.Proofs.Buckets.Deletion
import Kanban.Proofs.Buckets.Order
import Kanban.Proofs.Reorder.Synced
import Kanban.Proofs.Tasks.Arrangement

/-!
# Drags of buckets

A drag in a list of all buckets of a project is stored with the key that the bucket got in the list,
and no other bucket changes.  So the board shows the order of the list exactly if this key still
lies between the neighbors, where equal keys are told apart by the ids (`PendingMove.Fits`).  It
always does when there was room for it, but a drag between buckets with equal keys may be lost
(`ReorderList.bucketDrag_exact`).
-/

namespace Kanban

/-- With its new key the bucket stands between its neighbors on the board. -/
structure PendingMove.Fits (m : PendingMove) (s : Store) : Prop where
  above : ∀ b ∈ s.buckets, m.before = some b.id → keyLe b.position b.id m.position m.id = true
  below : ∀ b ∈ s.buckets, m.after = some b.id → keyLe m.position m.id b.position b.id = true

namespace ReorderList

open Store

variable {s : Store} {projectId : Int}

theorem unsignZero_position (hs : s.Regular) {b : Bucket} (hb : b ∈ s.buckets) :
    b.position.unsignZero = b.position :=
  congrArg Bucket.position (hs.bucketRows b hb).1

/-- A list of all buckets of a project shows them in the order of the board. -/
theorem ofItems_buckets (hs : s.Regular) {items : List Bucket}
    (h : items.Perm (s.buckets.filter (·.projectId == projectId))) (scope : Scope)
    (tag : Option Int) :
    ofItems items scope tag = ⟨s.bucketsOf projectId, scope, tag⟩ := by
  have hsorted : sorted scope items = s.bucketsOf projectId := by
    refine mergeSort_eq_of_increasing (f := Bucket.spot) ?_
      ((s.bucketsOf_perm projectId).trans h.symm)
      (bucketsOf_increasing hs projectId)
    intro b hb c hc
    have hb' := List.mem_of_mem_filter (h.mem_iff.1 hb)
    have hc' := List.mem_of_mem_filter (h.mem_iff.1 hc)
    exact itemLe_iff_spot (hs.bucketRows b hb').2 (unsignZero_position hs hb')
      (hs.bucketRows c hc').2
      (unsignZero_position hs hc')
  rw [ofItems, hsorted]

/-- Buckets of one project that are stored in the order of the board are listed as they are. -/
theorem ofItems_stored (hs : s.Regular)
    (h : s.buckets.Perm (s.buckets.filter (·.projectId == projectId)))
    (hordered : s.buckets.Pairwise (·.spot < ·.spot)) (scope : Scope) (tag : Option Int) :
    ofItems s.buckets scope tag = ⟨s.buckets, scope, tag⟩ := by
  rw [ofItems_buckets hs h, bucketsOf_eq hs h hordered]

/-! ### The stored bucket -/

/-- The row of a bucket that got another key. -/
def repositioned (b : Bucket) (key : Double) (time : Instant) : Bucket :=
  ({ b with position := key, updated := time } : Bucket).stored

section

variable {p : Project} {actor : Int} {b : Bucket} {key : Double} (hs : s.Regular)
  (hp : s.projectFor .write actor p.id = .ok p) (hb : b ∈ s.buckets) (hproject : b.projectId = p.id)

include hs hp hb hproject

theorem updateBucket_position (hkey : key.isFinite = true) :
    s.updateBucket actor p.id b.id { position := some key } =
      .ok (s.bucketDetail { b with position := key, updated := s.now },
        s.tick.setBucket { b with position := key, updated := s.now }) := by
  have hpatched : b.patched { position := some key } = .ok { b with position := key } := by
    have hvalid : Bucket.validPosition key = .ok key := if_pos hkey
    refine bind_eq_ok.2 ⟨b.title, rfl, bind_eq_ok.2 ⟨b.limit, rfl, bind_eq_ok.2 ⟨key, hvalid, rfl⟩⟩⟩
  refine bind_eq_ok.2 ⟨p, hp, bind_eq_ok.2 ⟨b, getBucket_of_mem hs hb hproject, ?_⟩⟩
  exact bind_eq_ok.2 ⟨_, hpatched, rfl⟩

theorem updateBucket_not_finite (hkey : key.isFinite = false) :
    s.updateBucket actor p.id b.id { position := some key } =
      .error (.invalid .positionNotFinite) := by
  have hpatched : b.patched { position := some key } = .error (.invalid .positionNotFinite) := by
    have hvalid : Bucket.validPosition key = .error (.invalid .positionNotFinite) :=
      if_neg (by simp [hkey])
    refine bind_eq_error.2 (.inr ⟨b.title, rfl,
      bind_eq_error.2 (.inr ⟨b.limit, rfl, bind_eq_error.2 (.inl hvalid)⟩)⟩)
  refine bind_eq_error.2 (.inr ⟨p, hp,
    bind_eq_error.2 (.inr ⟨b, getBucket_of_mem hs hb hproject, ?_⟩)⟩)
  exact bind_eq_error.2 (.inl hpatched)

end

section

variable {b : Bucket} (key : Double) (time : Instant) (hs : s.Regular) (hb : b ∈ s.buckets)
  (hproject : b.projectId = projectId)

include hs hb hproject

/-- The buckets afterwards are the one with its new key and the other ones. -/
theorem buckets_setBucket_perm :
    ((s.tick.setBucket { b with position := key, updated := time }).buckets.filter
      (·.projectId == projectId)).Perm
      (repositioned b key time :: (s.bucketsOf projectId).filter (·.id != b.id)) := by
  have hids : ((s.tick.setBucket { b with position := key, updated := time }).buckets.map
      (·.id)).Nodup := by
    rw [setBucket, map_key_replace (Bucket.id_stored _)]
    exact hs.buckets.nodup
  have hmem : repositioned b key time ∈
      (s.tick.setBucket { b with position := key, updated := time }).buckets :=
    mem_replace.2 (.inr ⟨rfl, b, hb, rfl⟩)
  have hothers :
      ((s.tick.setBucket { b with position := key, updated := time }).buckets.filter
        fun c => c.projectId == projectId && c.id != b.id) =
      s.buckets.filter fun c => c.projectId == projectId && c.id != b.id := by
    refine filter_map_of_fixed (fun c hc => ?_) fun c _ hc => ?_
    · by_cases heq : c.id = b.id
      · obtain rfl := eq_of_key_eq hs.buckets.nodup hc hb heq
        simp
      · simp [heq]
    · have hne : c.id ≠ b.id := by simpa using (Bool.and_eq_true_iff.1 hc).2
      simp [hne]
  have hselected : ((repositioned b key time).projectId == projectId) = true :=
    beq_iff_eq.2 hproject
  have hfilter := (s.bucketsOf_perm projectId).filter (·.id != b.id)
  rw [List.filter_filter] at hfilter
  refine (filter_perm_cons hids hmem hselected).trans (List.Perm.cons _ ?_)
  refine (List.Perm.of_eq hothers).trans (List.Perm.trans (List.Perm.of_eq ?_) hfilter.symm)
  exact List.filter_congr fun c _ => Bool.and_comm ..

/-- The board shows the bucket at an index exactly if its new key is between the keys that are
there. -/
theorem ids_bucketsOf_setBucket_iff (hkey : key.isNaN = false) {source j : Nat}
    (hsource : (s.bucketsOf projectId)[source]? = some b)
    (hj : j ≤ ((s.bucketsOf projectId).eraseIdx source).length) :
    ((s.tick.setBucket { b with position := key, updated := time }).bucketsOf projectId).map
      (·.id) =
        (((s.bucketsOf projectId).eraseIdx source).map (·.id)).insertIdx j b.id ↔
      (∀ c, j ≠ 0 → ((s.bucketsOf projectId).eraseIdx source)[j - 1]? = some c →
        c.spot < spot key b.id) ∧
        ∀ c, ((s.bucketsOf projectId).eraseIdx source)[j]? = some c → spot key b.id < c.spot := by
  have hs' : (s.tick.setBucket { b with position := key, updated := time }).Regular :=
    hs.tick.setBucket hkey
  have hperm := buckets_setBucket_perm key time hs hb hproject
  have hincreasing := bucketsOf_increasing hs projectId
  rw [← eraseIdx_eq_filter (nodup_bucketsOf hs projectId) hsource] at hperm
  -- With the new row at the index the other rows make up the board, if they increase.
  generalize (s.tick.setBucket { b with position := key, updated := time }) = s' at hs' hperm ⊢
  generalize hrest : (s.bucketsOf projectId).eraseIdx source = rest at hperm hj ⊢
  have hrestIncreasing : rest.Pairwise (·.spot < ·.spot) :=
    hrest ▸ hincreasing.sublist (List.eraseIdx_sublist ..)
  have hboard : (rest.insertIdx j (repositioned b key time)).Perm
      (s'.buckets.filter (·.projectId == projectId)) :=
    (List.perm_insertIdx _ _ hj).trans hperm.symm
  have hspot : (repositioned b key time).spot = spot key b.id := Bucket.spot_stored _
  have hmap : (rest.insertIdx j (repositioned b key time)).map (·.id) =
      (rest.map (·.id)).insertIdx j b.id :=
    List.map_insertIdx ..
  rw [← hspot, ← hmap]
  refine Iff.trans ?_ (increasing_insertIdx_iff hrestIncreasing hj)
  constructor
  · intro heq
    have hsame : s'.bucketsOf projectId = rest.insertIdx j (repositioned b key time) :=
      eq_of_map_key_eq hs'.buckets.nodup (fun c hc => (mem_bucketsOf.1 hc).1)
        (fun c hc => List.mem_of_mem_filter (hboard.mem_iff.1 hc)) heq
    rw [← hsame]
    exact bucketsOf_increasing hs' projectId
  · intro h
    rw [bucketsOf_eq hs' hboard h]

end

/-! ### Drags -/

/-- A bucket of a board is dragged to an index, where it gets a key between those of its new
neighbors. -/
structure Dragged (board : List Bucket) (source target : Nat) (m : PendingMove)
  (l : ReorderList Bucket) (b : Bucket) :
    Prop where
  bucket : board[source]? = some b
  target_le : target ≤ (board.eraseIdx source).length
  id : m.id = b.id
  before : m.before = (itemBefore (board.eraseIdx source) target).map (·.id)
  after : m.after = (board.eraseIdx source)[target]?.map (·.id)
  items : l.items.map (·.id) = ((board.eraseIdx source).map (·.id)).insertIdx target b.id
  room : m.needsRebalance = false → m.position.isFinite = true ∧
    (∀ c, itemBefore (board.eraseIdx source) target = some c → c.position < m.position) ∧
      ∀ c, (board.eraseIdx source)[target]? = some c → m.position < c.position

section

variable {p : Project} {actor : Int} {items : List Bucket} {scope : Scope} {tag : Option Int}
  {source target : Nat} {m : PendingMove} {l : ReorderList Bucket} {b : Bucket}

theorem exists_dragged (hs : s.Regular)
    (hitems : items.Perm (s.buckets.filter (·.projectId == p.id)))
    (hmove : (ofItems items scope tag).move source target = some (m, l)) :
    ∃ b, Dragged (s.bucketsOf p.id) source target m l b := by
  rw [ofItems_buckets hs hitems] at hmove
  obtain ⟨b, hb, htarget, hplace⟩ := place_of_move hmove
  obtain ⟨rfl, rfl⟩ := Prod.mk.inj hplace
  refine ⟨b, hb, htarget, rfl, rfl, rfl, List.map_insertIdx .., fun hroom => ?_⟩
  obtain ⟨hfinite, hbefore, hafter⟩ := Position.needsRebalance_eq_false.1 hroom
  refine ⟨hfinite, fun c hc => ?_, fun c hc => ?_⟩
  · exact hbefore _ (Option.map_eq_some_iff.2 ⟨c, hc, rfl⟩)
  · exact hafter _ (Option.map_eq_some_iff.2 ⟨c, hc, rfl⟩)

namespace Dragged

variable (h : Dragged (s.bucketsOf p.id) source target m l b)

include h

theorem mem : b ∈ s.buckets ∧ b.projectId = p.id := mem_bucketsOf.1 (List.mem_of_getElem? h.bucket)

variable (hs : s.Regular)

include hs

/-- The neighbors are other buckets. -/
theorem mem_others {c : Bucket} (hc : c ∈ (s.bucketsOf p.id).eraseIdx source) :
    c ∈ s.buckets ∧ c.id ≠ b.id := by
  rw [eraseIdx_eq_filter (nodup_bucketsOf hs p.id) h.bucket] at hc
  obtain ⟨hc, hne⟩ := List.mem_filter.1 hc
  exact ⟨(mem_bucketsOf.1 hc).1, by simpa using hne⟩

/-- Spots of different buckets differ, so the key fits exactly if it is strictly between its
neighbors. -/
theorem fits_iff (hkey : m.position.isNaN = false) :
    m.Fits s ↔
      (∀ c, target ≠ 0 → ((s.bucketsOf p.id).eraseIdx source)[target - 1]? = some c →
          c.spot < spot m.position b.id) ∧
        ∀ c, ((s.bucketsOf p.id).eraseIdx source)[target]? = some c →
        spot m.position b.id < c.spot := by
  have hle : ∀ c ∈ (s.bucketsOf p.id).eraseIdx source,
      (keyLe c.position c.id m.position m.id = true ↔ c.spot < spot m.position b.id) ∧
        (keyLe m.position m.id c.position c.id = true ↔ spot m.position b.id < c.spot) := by
    intro c hc
    obtain ⟨hc, hne⟩ := h.mem_others hs hc
    have hnum := (hs.bucketRows c hc).2
    rw [h.id, keyLe_iff_spot hnum hkey, keyLe_iff_spot hkey hnum]
    have hspot : c.spot ≠ spot m.position b.id := fun heq => hne (eq_of_spot_eq heq)
    exact ⟨⟨fun hle => lt_of_le_of_ne hle hspot, le_of_lt⟩,
      ⟨fun hle => lt_of_le_of_ne hle hspot.symm, le_of_lt⟩⟩
  constructor
  · intro hfits
    constructor
    · intro c h0 hc
      have hbefore : m.before = some c.id := by
        rw [h.before, itemBefore, if_neg h0, hc]
        rfl
      have hmem := List.mem_of_getElem? hc
      exact (hle c hmem).1.1 (hfits.above c (h.mem_others hs hmem).1 hbefore)
    · intro c hc
      have hafter : m.after = some c.id := by
        rw [h.after, hc]
        rfl
      have hmem := List.mem_of_getElem? hc
      exact (hle c hmem).2.1 (hfits.below c (h.mem_others hs hmem).1 hafter)
  · rintro ⟨hbefore, hafter⟩
    constructor
    · intro c hc hid
      obtain ⟨x, hx, hxid⟩ := Option.map_eq_some_iff.1 (h.before.symm.trans hid)
      obtain ⟨h0, hx⟩ := mem_of_itemBefore hx
      have hmem := List.mem_of_getElem? hx
      obtain rfl := eq_of_key_eq hs.buckets.nodup (h.mem_others hs hmem).1 hc hxid
      exact (hle x hmem).1.2 (hbefore x h0 hx)
    · intro c hc hid
      obtain ⟨x, hx, hxid⟩ := Option.map_eq_some_iff.1 (h.after.symm.trans hid)
      have hmem := List.mem_of_getElem? hx
      obtain rfl := eq_of_key_eq hs.buckets.nodup (h.mem_others hs hmem).1 hc hxid
      exact (hle x hmem).2.2 (hafter x hx)

/-- A key with room to both sides fits. -/
theorem fits_of_room (hroom : m.needsRebalance = false) :
    m.position.isFinite = true ∧ m.Fits s := by
  obtain ⟨hfinite, hbefore, hafter⟩ := h.room hroom
  have hkey := Double.isNaN_of_isFinite hfinite
  refine ⟨hfinite, (h.fits_iff hs hkey).2 ⟨fun c h0 hc => ?_, fun c hc => ?_⟩⟩
  · have hnum := (hs.bucketRows c (h.mem_others hs (List.mem_of_getElem? hc)).1).2
    have hlt := hbefore c (by rw [itemBefore, if_neg h0, hc])
    exact spot_lt_iff.2 (.inl ((Double.lt_iff_place hnum hkey).1 hlt))
  · have hnum := (hs.bucketRows c (h.mem_others hs (List.mem_of_getElem? hc)).1).2
    exact spot_lt_iff.2 (.inl ((Double.lt_iff_place hkey hnum).1 (hafter c hc)))

theorem refused (hp : s.projectFor .write actor p.id = .ok p) (hkey : m.position.isFinite = false) :
    s.updateBucket actor p.id m.id m.bucketRequest = .error (.invalid .positionNotFinite) := by
  rw [h.id]
  exact updateBucket_not_finite hs hp h.mem.1 h.mem.2 hkey

/-- A drag with a finite key is stored, and the board then shows the order of the list exactly if
the key fits. -/
theorem stored (hp : s.projectFor .write actor p.id = .ok p) (hkey : m.position.isFinite = true) :
    ∃ d s' bs, s.updateBucket actor p.id m.id m.bucketRequest = .ok (d, s') ∧
    s'.listBuckets actor p.id = .ok bs ∧
      (bs.map (·.bucket.id) = l.items.map (·.id) ↔ m.Fits s) := by
  have hnum := Double.isNaN_of_isFinite hkey
  have hread : s.projectFor .read actor p.id = .ok p := by
    obtain ⟨hget, hallows⟩ := projectFor_eq_ok.1 hp
    exact projectFor_eq_ok.2 ⟨hget, allows_read hallows⟩
  have hupdate := updateBucket_position hs hp h.mem.1 h.mem.2 hkey
  have horder :=
    ids_bucketsOf_setBucket_iff m.position s.now hs h.mem.1 h.mem.2 hnum h.bucket h.target_le
  rw [h.id]
  refine ⟨_, _, _, hupdate, bind_eq_ok.2 ⟨p, ?_, rfl⟩, ?_⟩
  · exact (projectFor_congr rfl rfl).trans hread
  · rw [List.map_map, h.items, h.fits_iff hs hnum, ← horder]
    exact Iff.rfl

end Dragged

end

/-- A drag of a bucket whose key is not finite is refused.  Any other one is stored, and then the
board shows the order of the list exactly if the key fits between the neighbors; this is so when
there was room for it. -/
theorem bucketDrag_exact {p : Project} {actor : Int} {items : List Bucket} {scope : Scope}
    {tag : Option Int} {source target : Nat} {m : PendingMove} {l : ReorderList Bucket}
    (h : s.Reachable) (hp : s.projectFor .write actor p.id = .ok p)
    (hitems : items.Perm (s.buckets.filter (·.projectId == p.id)))
    (hmove : (ofItems items scope tag).move source target = some (m, l)) :
    (m.position.isFinite = false →
      s.updateBucket actor p.id m.id m.bucketRequest = .error (.invalid .positionNotFinite)) ∧
    (m.position.isFinite = true →
      ∃ d s' bs, s.updateBucket actor p.id m.id m.bucketRequest = .ok (d, s') ∧
      s'.listBuckets actor p.id = .ok bs ∧
        (bs.map (·.bucket.id) = l.items.map (·.id) ↔ m.Fits s)) ∧
    (m.needsRebalance = false → m.position.isFinite = true ∧ m.Fits s) := by
  obtain ⟨b, hdragged⟩ := exists_dragged h.regular hitems hmove
  exact ⟨hdragged.refused h.regular hp, hdragged.stored h.regular hp,
    hdragged.fits_of_room h.regular⟩

/-- A board of three buckets at their own positions. -/
def spaced : Store :=
  [.createUser { username := "ada" }, .createProject 1 { title := "Plan" },
    .createBucket 1 1 { title := "Doing" }, .createBucket 1 1 { title := "Review" }].foldl
      (Operation.after {}) {}

/-- The last bucket is dragged to the front, and the board follows. -/
theorem bucketDrag_exact_spaced :
    ∃ m l d s' bs, (ofItems spaced.buckets .list).move 2 0 = some (m, l) ∧
      spaced.updateBucket 1 1 m.id m.bucketRequest = .ok (d, s') ∧ s'.listBuckets 1 1 = .ok bs ∧
        bs.map (·.bucket.id) = [3, 1, 2] := by
  have hreach : spaced.Reachable := Reachable.empty.foldl_after {} _
  let p := (spaced.project? 1).get (by decide +kernel)
  have hp : p.id = 1 ∧ spaced.projectFor .write 1 p.id = .ok p := by decide +kernel
  obtain ⟨hid, hp⟩ := hp
  have hitems : spaced.buckets.Perm (spaced.buckets.filter (·.projectId == p.id)) :=
    List.Perm.of_eq (by decide +kernel)
  let r := ((⟨spaced.buckets, .list, none⟩ : ReorderList Bucket).move 2 0).get (by decide +kernel)
  have hmove : (ofItems spaced.buckets .list).move 2 0 = some (r.1, r.2) := by
    rw [ofItems_stored hreach.regular hitems (by decide +kernel)]
    exact (Option.some_get _).symm
  have hroom : r.1.needsRebalance = false ∧ r.2.items.map (·.id) = [3, 1, 2] := by decide +kernel
  obtain ⟨-, hstored, hfits⟩ := bucketDrag_exact hreach hp hitems hmove
  obtain ⟨hfinite, hfits⟩ := hfits hroom.1
  obtain ⟨d, s', bs, hupdate, hlist, horder⟩ := hstored hfinite
  rw [hid] at hupdate hlist
  exact ⟨r.1, r.2, d, s', bs, hmove, hupdate, hlist, (horder.2 hfits).trans hroom.2⟩

/-- A board of three buckets at one position. -/
def level : Store :=
  [.createUser { username := "ada" }, .createProject 1 { title := "Plan" },
    .createBucket 1 1 { title := "Doing", position := Position.spacing },
    .createBucket 1 1 { title := "Review", position := Position.spacing }].foldl
      (Operation.after {}) {}

/-- The last bucket is dragged between the other two, where there is no room, and the board does not
follow. -/
theorem bucketDrag_lost_level :
    level.Reachable ∧ (∃ p, level.projectFor .write 1 1 = .ok p) ∧
      level.buckets.Perm (level.buckets.filter (·.projectId == 1)) ∧
      ∃ m l d s' bs, (ofItems level.buckets .list).move 2 1 = some (m, l) ∧
      m.needsRebalance = true ∧
        level.updateBucket 1 1 m.id m.bucketRequest = .ok (d, s') ∧ s'.listBuckets 1 1 = .ok bs ∧
          bs.map (·.bucket.id) ≠ l.items.map (·.id) := by
  have hreach : level.Reachable := Reachable.empty.foldl_after {} _
  let p := (level.project? 1).get (by decide +kernel)
  have hp : p.id = 1 ∧ level.projectFor .write 1 p.id = .ok p := by decide +kernel
  obtain ⟨hid, hp⟩ := hp
  have hitems : level.buckets.Perm (level.buckets.filter (·.projectId == p.id)) :=
    List.Perm.of_eq (by decide +kernel)
  let r := ((⟨level.buckets, .list, none⟩ : ReorderList Bucket).move 2 1).get (by decide +kernel)
  have hmove : (ofItems level.buckets .list).move 2 1 = some (r.1, r.2) := by
    rw [ofItems_stored hreach.regular hitems (by decide +kernel)]
    exact (Option.some_get _).symm
  have hflag : r.1.needsRebalance = true ∧ r.1.position.isFinite = true := by decide +kernel
  obtain ⟨b, hdragged⟩ := exists_dragged hreach.regular hitems hmove
  obtain ⟨d, s', bs, hupdate, hlist, horder⟩ := hdragged.stored hreach.regular hp hflag.2
  -- The key is that of the bucket behind, whose id is smaller.
  have hout : ¬ r.1.Fits level := by
    intro hfits
    have hnext := hfits.below ((level.bucket? 2).getD {}) (by decide +kernel) (by decide +kernel)
    exact absurd hnext (by decide +kernel)
  rw [hid] at hp hitems hupdate hlist
  exact ⟨hreach, ⟨p, hp⟩, hitems, r.1, r.2, d, s', bs, hmove, hflag.1, hupdate, hlist,
    fun h => hout (horder.1 h)⟩

end ReorderList

end Kanban
