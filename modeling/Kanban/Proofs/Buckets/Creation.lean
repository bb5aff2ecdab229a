import Kanban.Proofs.Import.Order
import Kanban.Proofs.Operation.FiniteKeys

/-!
# New buckets go to the end

A bucket that is added without a position stands behind the other buckets of its project, whatever
positions they were given (`Store.insertBucket_behind`).  Near the largest positions, of either
sign, the new position can be the one of the last bucket; then the greater id decides.  One added
bucket after the other, whole imports put their buckets behind those that were there
(`Store.importProjects_behind`), and no row of another bucket changes.
-/

namespace Kanban.Store

/-- Buckets were added, each of them behind the buckets that its project had by then; all other rows
are the same. -/
structure BucketsBehind (s : Store) (new : List Bucket) (s' : Store) : Prop where
  rows : s'.buckets = s.buckets ++ new
  board : ∀ id, s'.bucketsOf id = s.bucketsOf id ++ new.filter (·.projectId == id)

variable {s s' s'' : Store} {index index' : LabelIndex} {owner : User} {p : Project}

namespace BucketsBehind

theorem of_buckets (h : s'.buckets = s.buckets) : s.BucketsBehind [] s' where
  rows := h.trans (List.append_nil _).symm
  board id := by rw [bucketsOf, bucketsOf, h, List.filter_nil, List.append_nil]

theorem trans {new new' : List Bucket} (h : s.BucketsBehind new s')
    (h' : s'.BucketsBehind new' s'') :
    s.BucketsBehind (new ++ new') s'' where
  rows := by rw [h'.rows, h.rows, List.append_assoc]
  board id := by rw [h'.board, h.board, List.append_assoc, List.filter_append]

end BucketsBehind

/-! ### One bucket -/

/-- All zeros stand for no position. -/
theorem newBucketPosition_of_isZero {x : Double} (h : x.isZero = true) (s : Store)
    (projectId : Int) :
    s.newBucketPosition projectId x = s.newBucketPosition projectId .zero := by
  rw [newBucketPosition, newBucketPosition, if_pos h, if_pos Double.isZero_zero]

theorem newBucketPosition_of_not_isZero {x : Double} (h : x.isZero = false) (s : Store)
    (projectId : Int) :
    s.newBucketPosition projectId x = x := by
  rw [newBucketPosition, if_neg (by simp [h])]

theorem validPosition_eq_ok {x y : Double} :
    Bucket.validPosition x = .ok y ↔ x.isFinite = true ∧ x = y := by
  unfold Bucket.validPosition
  split <;> simp [*]

theorem insertBucket_behind (hs : s.Regular) {projectId : Int} {new : NewBucket}
    (hzero : new.position.isZero = true) {b : Bucket}
    (h : s.insertBucket projectId new owner = .ok (b, s')) : s.BucketsBehind [b] s' := by
  simp only [insertBucket, bind_eq_ok, Except.ok.injEq, validPosition_eq_ok] at h
  obtain ⟨title, -, limit, -, given, ⟨-, rfl⟩, hadd⟩ := h
  obtain ⟨rfl, rfl⟩ := Prod.mk.inj hadd
  exact ⟨rfl, bucketsOf_addBucket hs (newBucketPosition_of_isZero hzero s projectId)⟩

/-- A bucket with a position gets exactly this one. -/
theorem createBucket_given {actor projectId : Int} {new : NewBucket}
    (hgiven : new.position.isZero = false) {d : BucketDetail}
    (h : s.createBucket actor projectId new = .ok (d, s')) :
    new.position.isFinite = true ∧ d.bucket.position = new.position ∧
    s'.buckets = s.buckets ++ [d.bucket] := by
  obtain ⟨p, creator, -, -, h⟩ := createBucket_eq_ok h
  simp only [insertBucket, bind_eq_ok, Except.ok.injEq, validPosition_eq_ok] at h
  obtain ⟨title, -, limit, -, given, ⟨hfinite, rfl⟩, hadd⟩ := h
  obtain ⟨hrow, rfl⟩ := Prod.mk.inj hadd
  refine ⟨hfinite, ?_, by rw [← hrow]⟩
  rw [← hrow]
  show (s.newBucketPosition p.id new.position).unsignZero = new.position
  rw [newBucketPosition_of_not_isZero hgiven, Double.unsignZero_of_isZero_eq_false hgiven]

/-- A position that is not finite is refused where nothing else is wrong with the bucket. -/
theorem createBucket_not_finite {actor projectId : Int} {new : NewBucket}
    (hinfinite : new.position.isFinite = false) {r : BucketDetail × Store}
    (h : s.createBucket actor projectId { new with position := .zero } = .ok r) :
    s.createBucket actor projectId new = .error (.invalid .positionNotFinite) := by
  obtain ⟨p, creator, hp, hcreator, h⟩ := createBucket_eq_ok h
  simp only [insertBucket, bind_eq_ok] at h
  obtain ⟨title, htitle, limit, hlimit, -⟩ := h
  have hposition : Bucket.validPosition new.position = .error (.invalid .positionNotFinite) := by
    rw [Bucket.validPosition, if_neg (by simp [hinfinite])]
  simp only [createBucket, insertBucket, hp, hcreator, htitle, hlimit, hposition]
  rfl

/-! ### Projects -/

theorem createProject_behind (hs : s.Regular) {actor : Int} {new : NewProject}
    (h : s.createProject actor new = .ok (p, s')) :
    ∃ b, b.projectId = p.id ∧ s.BucketsBehind [b] s' := by
  obtain ⟨owner, title, b, rfl, hb⟩ := createProject_eq_ok h
  have hadded := hs.addProject title new.description owner.id
  obtain ⟨x, hx, -, hadd⟩ := insertBucket_eq_ok hadded hb
  obtain rfl := congrArg Prod.fst hadd
  have hproject : s.BucketsBehind [] (s.addProject title new.description owner.id).2 :=
    .of_buckets rfl
  refine ⟨_, ?_, hproject.trans (insertBucket_behind hadded Double.isZero_zero hb)⟩
  exact hx

/-- Each bucket of an import stands behind those that were added before. -/
theorem importBuckets_behind (hs : s.Regular) (hp : ∃ q ∈ s.projects, q.id = p.id)
    {bs : List BucketImport} (h : s.importBuckets index owner p bs = .ok (index', s')) :
    ∃ new, s.BucketsBehind new s' := by
  induction bs generalizing s index with
  | nil =>
    obtain ⟨rfl, rfl⟩ := Prod.mk.inj (Except.ok.inj h)
    exact ⟨[], .of_buckets rfl⟩
  | cons b bs ih =>
    obtain ⟨bucket, s₁, index₂, s₂, hbucket, htasks, h⟩ := importBuckets_cons.1 h
    obtain ⟨hhas, hprojects⟩ := hasBucket_insertBucket hs hbucket
    have hs₁ := (insertBucket_write hs hp hbucket).regular hs
    obtain ⟨hwrites, hbuckets, hprojects'⟩ := importTasks_writes hhas htasks
    obtain ⟨new, hnew⟩ := ih (hwrites.regular hs₁) (by rw [hprojects', hprojects]; exact hp) h
    have hfirst := insertBucket_behind hs Double.isZero_zero hbucket
    exact ⟨_, hfirst.trans ((BucketsBehind.of_buckets hbuckets).trans hnew)⟩

theorem importProjects_behind (hs : s.Regular) {is : List ProjectImport} {ps : List Project}
    (h : s.importProjects index owner is = .ok (ps, s')) : ∃ new, s.BucketsBehind new s' := by
  induction is generalizing s index ps with
  | nil =>
    obtain ⟨-, rfl⟩ := Prod.mk.inj (Except.ok.inj h)
    exact ⟨[], .of_buckets rfl⟩
  | cons i is ih =>
    obtain ⟨-, index₂, s₂, ps', hbuckets, hrest, -⟩ := importProjects_cons.1 h
    have hadded := hs.addProject (Text.trimmed i.title) i.description owner.id
    have hproject : s.BucketsBehind []
        (s.addProject (Text.trimmed i.title) i.description owner.id).2 := .of_buckets rfl
    have hp : ∃ q ∈ (s.addProject (Text.trimmed i.title) i.description owner.id).2.projects,
        q.id = (s.addProject (Text.trimmed i.title) i.description owner.id).1.id :=
      ⟨_, List.mem_append_right _ (List.mem_singleton_self _), rfl⟩
    obtain ⟨new, hnew⟩ := importBuckets_behind hadded hp hbuckets
    obtain ⟨new', hnew'⟩ := ih ((importBuckets_writes hadded hp hbuckets).regular hadded) hrest
    exact ⟨_, hproject.trans (hnew.trans hnew')⟩

/-! ### All ways to add buckets -/

theorem KeepsFinite.idsFit (h : s.KeepsFinite s') (fit : s'.IdsFit) : s.IdsFit :=
  ⟨h.lastBucket.trans_lt fit.buckets, h.lastTask.trans_lt fit.tasks⟩

theorem BucketsBehind.isFinite {new : List Bucket} (h : s.BucketsBehind new s') (hs : s.Reachable)
    (hkeeps : s.KeepsFinite s') (fit : s'.IdsFit) : ∀ b ∈ new, b.position.isFinite = true :=
  fun b hb => (hkeeps.keys fit (hs.finiteKeys (hkeeps.idsFit fit))).buckets b
    (h.rows ▸ List.mem_append_right _ hb)

/-- New buckets go to the end.  Without a position, that is with a zero of either sign, a bucket
that is created stands last on the board of its project; so does the bucket of a new project and,
one after the other, the buckets of an import.  The rows of all other buckets are as they were, and
the new positions are finite as long as ids are below `2 ^ 63`.  Any other finite position is stored
as it is given, and one that is not finite is refused. -/
theorem Reachable.newBuckets_behind (hs : s.Reachable) :
    (∀ actor projectId new d s', s.createBucket actor projectId new = .ok (d, s') →
      new.position.isZero = true →
      d.bucket.projectId = projectId ∧ s.BucketsBehind [d.bucket] s' ∧
        (s'.IdsFit → d.bucket.position.isFinite = true)) ∧
    (∀ actor new p s', s.createProject actor new = .ok (p, s') →
      ∃ b, b.projectId = p.id ∧ s.BucketsBehind [b] s' ∧ (s'.IdsFit → b.position.isFinite = true)) ∧
    (∀ actor is ps s', s.importAll actor is = .ok (ps, s') →
      ∃ new, s.BucketsBehind new s' ∧ (s'.IdsFit → ∀ b ∈ new, b.position.isFinite = true)) ∧
    (∀ actor projectId new d s', s.createBucket actor projectId new = .ok (d, s') →
      new.position.isZero = false →
      new.position.isFinite = true ∧ d.bucket.position = new.position ∧
      s'.buckets = s.buckets ++ [d.bucket]) ∧
    ∀ actor projectId new r, new.position.isFinite = false →
      s.createBucket actor projectId { new with position := .zero } = .ok r →
      s.createBucket actor projectId new = .error (.invalid .positionNotFinite) := by
  refine ⟨fun actor projectId new d s' h hzero => ?_, fun actor new p s' h => ?_,
    fun actor is ps s' h => ?_, fun actor projectId new d s' h hgiven =>
      createBucket_given hgiven h,
    fun actor projectId new r hinfinite h => createBucket_not_finite hinfinite h⟩
  · obtain ⟨p, creator, hp, -, hb⟩ := createBucket_eq_ok h
    obtain ⟨x, hx, -, hadd⟩ := insertBucket_eq_ok hs.regular hb
    have hrow : (s.addBucket x).1 = d.bucket := congrArg Prod.fst hadd
    have hbehind := insertBucket_behind hs.regular hzero hb
    refine ⟨?_, hbehind, fun fit => ?_⟩
    · rw [← hrow, ← (mem_of_projectFor hp).2]
      exact hx
    · exact hbehind.isFinite hs (createBucket_keepsFinite h) fit _ (List.mem_singleton_self _)
  · obtain ⟨b, hproject, hbehind⟩ := createProject_behind hs.regular h
    exact ⟨b, hproject, hbehind, fun fit =>
      hbehind.isFinite hs (createProject_keepsFinite h) fit b (List.mem_singleton_self b)⟩
  · simp only [importAll, bind_eq_ok] at h
    obtain ⟨owner, -, h⟩ := h
    obtain ⟨new, hbehind⟩ := importProjects_behind hs.regular h
    exact ⟨new, hbehind, hbehind.isFinite hs (importProjects_keepsFinite h)⟩

/-- A board with two buckets at the largest position of all. -/
def crowdedBoard : Store :=
  [.createUser { username := "ada" }, .createProject 1 { title := "Plan" },
    .createBucket 1 1 { title := "Last", position := .ofMagnitude false (Double.limit - 2 ^ 2045) },
    .createBucket 1 1
      { title := "Last", position := .ofMagnitude false (Double.limit - 2 ^ 2045) }].foldl
    (Operation.after {}) {}

/-- A bucket to be put at the negative zero. -/
def minusZero : NewBucket := { title := "Next", position := .ofMagnitude true 0 }

/-- The negative zero puts a bucket behind them, and minus infinity is refused. -/
theorem newBuckets_behind_crowdedBoard :
    (∃ d s', crowdedBoard.createBucket 1 1 minusZero = .ok (d, s') ∧
      s'.bucketsOf 1 = crowdedBoard.bucketsOf 1 ++ [d.bucket] ∧ d.bucket.position.isFinite = true) ∧
      crowdedBoard.createBucket 1 1 { title := "Next", position := .infinite true } =
        .error (.invalid .positionNotFinite) := by
  have hreach : crowdedBoard.Reachable := Reachable.empty.foldl_after {} _
  obtain ⟨hbehind, -, -, -, hrefused⟩ := hreach.newBuckets_behind
  constructor
  · obtain ⟨⟨d, s'⟩, hcreate⟩ : ∃ r, crowdedBoard.createBucket 1 1 minusZero = .ok r :=
      exists_of_isOk (by decide +kernel)
    have hrun : (Operation.createBucket 1 1 minusZero).run {} crowdedBoard =
        .ok (.bucket d, s') := by
      rw [Operation.run, hcreate]
      rfl
    have hfit : ((Operation.createBucket 1 1 minusZero).after {} crowdedBoard).IdsFit :=
      ⟨by decide +kernel, by decide +kernel⟩
    rw [Operation.after, hrun] at hfit
    obtain ⟨hproject, hlast, hfinite⟩ := hbehind 1 1 minusZero d s' hcreate (by decide +kernel)
    have hown : [d.bucket].filter (·.projectId == 1) = [d.bucket] :=
      List.filter_cons_of_pos (beq_iff_eq.2 hproject)
    exact ⟨d, s', hcreate, (hlast.board 1).trans (by rw [hown]), hfinite hfit⟩
  · obtain ⟨r, hcreate⟩ : ∃ r, crowdedBoard.createBucket 1 1 { title := "Next" } = .ok r :=
      exists_of_isOk (by decide +kernel)
    exact hrefused 1 1 { title := "Next", position := .infinite true } r rfl hcreate

end Kanban.Store
