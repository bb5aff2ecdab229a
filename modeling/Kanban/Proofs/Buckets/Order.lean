import Kanban.Proofs.Store.Regular

/-!
# Buckets in the order of the board

The buckets of a project stand in the one order in which position and id increase
(`Store.bucketsOf_increasing`, `Store.bucketsOf_eq`).
-/

namespace Kanban

/-- Where a bucket stands on the board. -/
def Bucket.spot (b : Bucket) : Int ×ₗ Int := Kanban.spot b.position b.id

@[simp] theorem Bucket.spot_stored (b : Bucket) : b.stored.spot = b.spot := by
  simp [Bucket.spot, Kanban.spot, Bucket.stored]

namespace Store

variable {s : Store} {projectId : Int}

theorem bucketsOf_perm (s : Store) (projectId : Int) :
    (s.bucketsOf projectId).Perm (s.buckets.filter (·.projectId == projectId)) :=
  List.mergeSort_perm _ _

section

variable (hs : s.Regular)

include hs

private theorem keyLe_buckets :
    ∀ b ∈ s.buckets.filter (·.projectId == projectId),
    ∀ c ∈ s.buckets.filter (·.projectId == projectId),
      keyLe b.position b.id c.position c.id = true ↔ b.spot ≤ c.spot := by
  intro b hb c hc
  have hb' := (hs.bucketRows b (List.mem_of_mem_filter hb)).2
  have hc' := (hs.bucketRows c (List.mem_of_mem_filter hc)).2
  exact keyLe_iff_spot hb' hc'

theorem nodup_bucketsOf (projectId : Int) : ((s.bucketsOf projectId).map (·.id)).Nodup := by
  have hids : ((s.buckets.filter (·.projectId == projectId)).map (·.id)).Nodup :=
    hs.buckets.nodup.sublist (List.filter_sublist.map _)
  exact ((s.bucketsOf_perm projectId).map _).nodup_iff.2 hids

theorem bucketsOf_increasing (projectId : Int) :
    (s.bucketsOf projectId).Pairwise (·.spot < ·.spot) := by
  have hids : ((s.buckets.filter (·.projectId == projectId)).map (·.id)).Nodup :=
    hs.buckets.nodup.sublist (List.filter_sublist.map _)
  have hspots : ((s.buckets.filter (·.projectId == projectId)).map Bucket.spot).Nodup := by
    rw [List.Nodup, List.pairwise_map] at hids ⊢
    exact hids.imp fun hne heq => hne (eq_of_spot_eq heq)
  exact increasing_mergeSort (keyLe_buckets hs) hspots

theorem bucketsOf_eq {L : List Bucket}
    (hperm : L.Perm (s.buckets.filter (·.projectId == projectId)))
    (h : L.Pairwise (·.spot < ·.spot)) : s.bucketsOf projectId = L :=
  mergeSort_eq_of_increasing (keyLe_buckets hs) hperm h

end

end Store

end Kanban
