import Kanban.Proofs.Success
import Kanban.Proofs.Tasks.Rebalance

/-!
# Placement between neighbors

A place between two neighbors is found exactly when the neighbors are other tasks of the scope and
stand in this order (`Store.Fits`, `Store.fits_of_place`, `Store.exists_place`).  The key found lies
strictly between the keys that the neighbors then have (`Store.Between`, `Store.between_of_place`).
Keys that leave no room are spread out at most once, since spread keys always leave room
(`Store.exists_key_of_rebalance`).
-/

namespace Kanban

namespace Store

/-! ### Keys between keys -/

theorem keyBetween?_eq_ok {b a found : Option Double} :
    keyBetween? b a = .ok found ↔
      (∀ x y, b = some x → a = some y → ¬y < x) ∧
        found = if Position.needsRebalance b a (Position.allocate b a) then none
          else some (Position.allocate b a) := by
  rcases b with - | x <;> rcases a with - | y
  · simpa [keyBetween?] using eq_comm
  · simpa [keyBetween?] using eq_comm
  · simpa [keyBetween?] using eq_comm
  · by_cases h : y < x
    · simp [keyBetween?, h]
    · simpa [keyBetween?, h] using eq_comm

/-! ### Room among spread keys -/

section

open Position

private theorem keyBetween?_of_room {b a : Option Double}
    (horder : ∀ x y, b = some x → a = some y → ¬y < x)
    (hroom : needsRebalance b a (allocate b a) = false) :
    keyBetween? b a = .ok (some (allocate b a)) :=
  keyBetween?_eq_ok.2 ⟨horder, by rw [hroom]; rfl⟩

theorem keyBetween?_alone : keyBetween? none none = .ok (some spacing) :=
  keyBetween?_of_room (by simp) (needsRebalance_eq_false.2 ⟨isFinite_spacing, by simp, by simp⟩)

theorem keyBetween?_behind {k : Nat} (hk : k ≤ 2 ^ 50) :
    keyBetween? (some (halfSpacings (2 * k))) none = .ok (some (halfSpacings (2 * k + 2))) := by
  rw [← allocate_behind hk]
  refine keyBetween?_of_room (by simp) (needsRebalance_eq_false.2 ?_)
  rw [allocate_behind hk]
  refine ⟨isFinite_halfSpacings (by omega), ?_, by simp⟩
  intro x hx
  rw [← Option.some.inj hx, halfSpacings_lt (by omega) (by omega)]
  omega

theorem keyBetween?_ahead {k : Nat} (hpos : 0 < k) (hk : k ≤ 2 ^ 50) :
    keyBetween? none (some (halfSpacings (2 * k))) = .ok (some (halfSpacings k)) := by
  rw [← allocate_ahead hpos hk]
  refine keyBetween?_of_room (by simp) (needsRebalance_eq_false.2 ?_)
  rw [allocate_ahead hpos hk]
  refine ⟨isFinite_halfSpacings (by omega), by simp, ?_⟩
  intro x hx
  rw [← Option.some.inj hx, halfSpacings_lt (by omega) (by omega)]
  omega

theorem keyBetween?_between {j k : Nat} (hjk : j < k) (hk : k ≤ 2 ^ 50) :
    keyBetween? (some (halfSpacings (2 * j))) (some (halfSpacings (2 * k))) =
      .ok (some (halfSpacings (j + k))) := by
  rw [← allocate_between hjk hk]
  have hlt : ∀ m n : Nat, m ≤ 2 ^ 51 → n ≤ 2 ^ 51 → (halfSpacings m < halfSpacings n ↔ m < n) :=
    fun m n hm hn => halfSpacings_lt (by omega) (by omega)
  refine keyBetween?_of_room ?_ (needsRebalance_eq_false.2 ?_)
  · intro x y hx hy
    rw [← Option.some.inj hx, ← Option.some.inj hy, hlt _ _ (by omega) (by omega)]
    omega
  · rw [allocate_between hjk hk]
    refine ⟨isFinite_halfSpacings (by omega), ?_, ?_⟩
    · intro x hx
      rw [← Option.some.inj hx, hlt _ _ (by omega) (by omega)]
      omega
    · intro y hy
      rw [← Option.some.inj hy, hlt _ _ (by omega) (by omega)]
      omega

end

/-! ### The greatest key -/

theorem greatest?_eq_none {xs : List Double} : greatest? xs = none ↔ xs = [] := by
  cases xs with
  | nil => simp [greatest?]
  | cons x xs =>
    unfold greatest?
    split
    · simp
    · split <;> simp

/-- No key is greater than the greatest one. -/
theorem greatest?_eq_some {xs : List Double} (hnum : ∀ x ∈ xs, x.isNaN = false) {g : Double}
    (h : greatest? xs = some g) : g ∈ xs ∧ ∀ x ∈ xs, x.place ≤ g.place := by
  induction xs generalizing g with
  | nil => simp [greatest?] at h
  | cons x xs ih =>
    have hx := hnum x (List.mem_cons_self ..)
    have hxs : ∀ y ∈ xs, y.isNaN = false := fun y hy => hnum y (List.mem_cons_of_mem _ hy)
    unfold greatest? at h
    split at h
    · rename_i hnone
      obtain rfl := greatest?_eq_none.1 hnone
      obtain rfl := Option.some.inj h
      simp
    · rename_i y hsome
      obtain ⟨hy, hle⟩ := ih hxs hsome
      have hlt_iff := Double.lt_iff_place hx (hxs y hy)
      split at h
      · rename_i hlt
        have hlt := hlt_iff.1 hlt
        obtain rfl := Option.some.inj h
        refine ⟨List.mem_cons_of_mem _ hy, fun z hz => ?_⟩
        rcases List.mem_cons.1 hz with rfl | hz
        · omega
        · exact hle z hz
      · rename_i hge
        have hge := mt hlt_iff.2 hge
        obtain rfl := Option.some.inj h
        refine ⟨List.mem_cons_self .., fun z hz => ?_⟩
        rcases List.mem_cons.1 hz with rfl | hz
        · omega
        · have := hle z hz; omega

variable {s : Store} {p : Place} {moving : Int} {before after : Option Int}

/-! ### Neighbors -/

/-- The given neighbors are other tasks of the scope, and the one before precedes the one after. -/
structure Fits (s : Store) (p : Place) (moving : Int) (before after : Option Int) : Prop where
  before_mem : ∀ id, before = some id → ∃ t ∈ s.othersIn p moving, t.id = id
  after_mem : ∀ id, after = some id → ∃ t ∈ s.othersIn p moving, t.id = id
  precedes : ∀ t ∈ s.othersIn p moving, ∀ u ∈ s.othersIn p moving, before = some t.id →
    after = some u.id →
    t.Precedes p.scope u

instance : Decidable (s.Fits p moving before after) :=
  decidable_of_iff
    ((∀ id ∈ before, ∃ t ∈ s.othersIn p moving, t.id = id) ∧
      (∀ id ∈ after, ∃ t ∈ s.othersIn p moving, t.id = id) ∧
      ∀ t ∈ s.othersIn p moving, ∀ u ∈ s.othersIn p moving, before = some t.id → after = some u.id →
        t.Precedes p.scope u)
    ⟨fun h => ⟨h.1, h.2.1, h.2.2⟩, fun h => ⟨h.before_mem, h.after_mem, h.precedes⟩⟩

/-- The key is finite and lies strictly between those of the given neighbors; without neighbors it
lies behind all others. -/
structure Between (s : Store) (p : Place) (moving : Int) (before after : Option Int)
    (key : Double) : Prop where
  finite : key.isFinite = true
  above : ∀ t ∈ s.othersIn p moving, before = some t.id → t.key p.scope < key
  below : ∀ t ∈ s.othersIn p moving, after = some t.id → key < t.key p.scope
  behind : before = none → after = none → ∀ t ∈ s.othersIn p moving, t.key p.scope < key

theorem eq_of_mem_othersIn (hids : (s.tasks.map (·.id)).Nodup) {t u : Task}
    (ht : t ∈ s.othersIn p moving) (hu : u ∈ s.othersIn p moving) (h : t.id = u.id) : t = u :=
  eq_of_key_eq hids (mem_othersIn.1 ht).1 (mem_othersIn.1 hu).1 h

/-- A neighbor has a key exactly if it is another task of the scope. -/
theorem neighborKey_eq_ok (hids : (s.tasks.map (·.id)).Nodup) {neighbor : Int} {x : Double} :
    s.neighborKey p moving neighbor = .ok x ↔
      ∃ t ∈ s.othersIn p moving, t.id = neighbor ∧ t.key p.scope = x := by
  unfold neighborKey
  constructor
  · intro h
    split at h
    · simp at h
    · rename_i hne
      split at h
      · rename_i t hfind
        have hprop := List.find?_some hfind
        simp only [Bool.and_eq_true, beq_iff_eq] at hprop
        simp only [Except.ok.injEq] at h
        exact ⟨t, mem_othersIn.2 ⟨List.mem_of_find?_eq_some hfind, hprop.2, hprop.1 ▸ hne⟩,
          hprop.1, h⟩
      · simp at h
  · rintro ⟨t, ht, rfl, rfl⟩
    obtain ⟨hmem, hin, hne⟩ := mem_othersIn.1 ht
    rw [if_neg hne]
    cases hfind : s.tasks.find? fun u => u.id == t.id && p.contains u with
    | none =>
      rw [List.find?_eq_none] at hfind
      exact absurd (by simp [hin]) (hfind t hmem)
    | some u =>
      have hprop := List.find?_some hfind
      simp only [Bool.and_eq_true, beq_iff_eq] at hprop
      rw [eq_of_key_eq hids (List.mem_of_find?_eq_some hfind) hmem hprop.1]

theorem optionalKey_eq_ok (hids : (s.tasks.map (·.id)).Nodup) {neighbor : Option Int}
    {x : Option Double} :
    s.optionalKey p moving neighbor = .ok x ↔
      (neighbor = none ∧ x = none) ∨ ∃ t ∈ s.othersIn p moving, neighbor = some t.id ∧
      x = some (t.key p.scope) := by
  cases neighbor with
  | none => simp [optionalKey, eq_comm]
  | some n =>
    simp only [optionalKey, map_eq_ok, neighborKey_eq_ok hids]
    constructor
    · rintro ⟨_, ⟨t, ht, rfl, rfl⟩, rfl⟩
      exact .inr ⟨t, ht, rfl, rfl⟩
    · rintro (⟨h, -⟩ | ⟨t, ht, hn, rfl⟩)
      · simp at h
      · exact ⟨_, ⟨t, ht, (Option.some.inj hn).symm, rfl⟩, rfl⟩

theorem neighborKeys_eq_ok {b a : Option Double} :
    s.neighborKeys p moving before after = .ok (b, a) ↔
      (before = none ∧ after = none ∧ b = s.tailKey p moving ∧ a = none) ∨
        (¬(before = none ∧ after = none) ∧ s.optionalKey p moving before = .ok b ∧
          s.optionalKey p moving after = .ok a) := by
  rcases before with - | i <;> rcases after with - | j
  · simp only [neighborKeys, Option.isNone_none, Bool.and_self, ↓reduceIte, Except.ok.injEq,
      Prod.mk.injEq, and_self, not_true_eq_false, false_and, or_false, true_and]
    exact and_congr eq_comm eq_comm
  all_goals simp [neighborKeys, bind_eq_ok]

section

variable (hids : (s.tasks.map (·.id)).Nodup) {b a : Option Double} {t : Task}

include hids

/-- The keys of neighbors are read from the other tasks of the scope. -/
theorem neighborKeys_congr {s' : Store} (hids' : (s'.tasks.map (·.id)).Nodup)
    (hothers : s'.othersIn p moving = s.othersIn p moving)
    (h : s.neighborKeys p moving before after = .ok (b, a)) :
    s'.neighborKeys p moving before after = .ok (b, a) := by
  simp only [neighborKeys_eq_ok, tailKey, optionalKey_eq_ok hids, optionalKey_eq_ok hids',
    hothers] at h ⊢
  exact h

theorem optionalKey_of_mem (ht : t ∈ s.othersIn p moving) :
    s.optionalKey p moving (some t.id) = .ok (some (t.key p.scope)) :=
  (optionalKey_eq_ok hids).2 (.inr ⟨t, ht, rfl, rfl⟩)

theorem neighborKeys_before (hkeys : s.neighborKeys p moving before after = .ok (b, a))
    (ht : t ∈ s.othersIn p moving) (hbefore : before = some t.id) : b = some (t.key p.scope) := by
  subst hbefore
  rcases neighborKeys_eq_ok.1 hkeys with ⟨h, -⟩ | ⟨-, hb, -⟩
  · simp at h
  · rw [optionalKey_of_mem hids ht] at hb
    exact (Except.ok.inj hb).symm

theorem neighborKeys_after (hkeys : s.neighborKeys p moving before after = .ok (b, a))
    (ht : t ∈ s.othersIn p moving) (hafter : after = some t.id) : a = some (t.key p.scope) := by
  subst hafter
  rcases neighborKeys_eq_ok.1 hkeys with ⟨-, h, -⟩ | ⟨-, -, ha⟩
  · simp at h
  · rw [optionalKey_of_mem hids ht] at ha
    exact (Except.ok.inj ha).symm

theorem mem_of_optionalKey {neighbor : Option Int} {x : Option Double}
    (h : s.optionalKey p moving neighbor = .ok x) :
    ∀ id, neighbor = some id → ∃ t ∈ s.othersIn p moving, t.id = id := by
  rintro id rfl
  rcases (optionalKey_eq_ok hids).1 h with ⟨h, -⟩ | ⟨t, ht, h, -⟩
  · simp at h
  · exact ⟨t, ht, (Option.some.inj h).symm⟩

/-- The keys of the neighbors are found exactly if these are other tasks of the scope. -/
theorem exists_neighborKeys :
    (∃ b a, s.neighborKeys p moving before after = .ok (b, a)) ↔
      (∀ id, before = some id → ∃ t ∈ s.othersIn p moving, t.id = id) ∧
        ∀ id, after = some id → ∃ t ∈ s.othersIn p moving, t.id = id := by
  constructor
  · rintro ⟨b, a, hkeys⟩
    rcases neighborKeys_eq_ok.1 hkeys with ⟨rfl, rfl, -⟩ | ⟨-, hb, ha⟩
    · simp
    · exact ⟨mem_of_optionalKey hids hb, mem_of_optionalKey hids ha⟩
  · have hkey : ∀ neighbor : Option Int,
      (∀ id, neighbor = some id → ∃ t ∈ s.othersIn p moving, t.id = id) →
        ∃ x, s.optionalKey p moving neighbor = .ok x := by
      rintro (- | id) h
      · exact ⟨none, rfl⟩
      · obtain ⟨t, ht, rfl⟩ := h id rfl
        exact ⟨_, optionalKey_of_mem hids ht⟩
    rintro ⟨hb, ha⟩
    by_cases hnone : before = none ∧ after = none
    · exact ⟨_, _, neighborKeys_eq_ok.2 (.inl ⟨hnone.1, hnone.2, rfl, rfl⟩)⟩
    · obtain ⟨x, hx⟩ := hkey before hb
      obtain ⟨y, hy⟩ := hkey after ha
      exact ⟨x, y, neighborKeys_eq_ok.2 (.inr ⟨hnone, hx, hy⟩)⟩

end

/-- The key that is found is the one that the neighbors yield. -/
theorem of_keyBetween?_eq_some {b a : Option Double} {key : Double}
    (h : keyBetween? b a = .ok (some key)) :
    key = Position.allocate b a ∧ Position.needsRebalance b a key = false := by
  obtain ⟨-, hfound⟩ := keyBetween?_eq_ok.1 h
  split at hfound
  · simp at hfound
  · rename_i hroom
    obtain rfl := Option.some.inj hfound
    exact ⟨rfl, by simpa using hroom⟩

theorem of_keyBetween?_eq_none {b a : Option Double} (h : keyBetween? b a = .ok none) :
    Position.needsRebalance b a (Position.allocate b a) = true := by
  obtain ⟨-, hfound⟩ := keyBetween?_eq_ok.1 h
  split at hfound
  · assumption
  · simp at hfound

theorem keyBetween?_eq_some {b a : Option Double} {key : Double}
    (h : keyBetween? b a = .ok (some key)) :
    key.isFinite = true ∧ (∀ x, b = some x → x < key) ∧ ∀ y, a = some y → key < y :=
  Position.needsRebalance_eq_false.1 (of_keyBetween?_eq_some h).2

/-- A key between the keys of the neighbors is between the neighbors. -/
theorem between_of_keyBetween? (hids : (s.tasks.map (·.id)).Nodup)
    (hnum : ∀ t ∈ s.othersIn p moving, (t.key p.scope).isNaN = false) {b a : Option Double}
    {key : Double} (hkeys : s.neighborKeys p moving before after = .ok (b, a))
    (hkey : keyBetween? b a = .ok (some key)) :
    s.Between p moving before after key := by
  obtain ⟨hfin, hb, ha⟩ := keyBetween?_eq_some hkey
  refine ⟨hfin, fun t ht hbefore => hb _ (neighborKeys_before hids hkeys ht hbefore),
    fun t ht hafter => ha _ (neighborKeys_after hids hkeys ht hafter), ?_⟩
  rintro rfl rfl t ht
  rcases neighborKeys_eq_ok.1 hkeys with ⟨-, -, rfl, rfl⟩ | ⟨h, -⟩
  · -- The key lies behind the greatest key, which no other one exceeds.
    have hmem : t.key p.scope ∈ (s.othersIn p moving).map (·.key p.scope) := List.mem_map_of_mem ht
    have hnum' : ∀ x ∈ (s.othersIn p moving).map (·.key p.scope), x.isNaN = false := by
      simpa using hnum
    cases htail : s.tailKey p moving with
    | none => simp [greatest?_eq_none.1 htail] at hmem
    | some g =>
      obtain ⟨hg, hle⟩ := greatest?_eq_some hnum' htail
      have hlt := hb g htail
      have hkeyNum := (Double.isNaN_of_lt hlt).2
      rw [Double.lt_iff_place (hnum' g hg) hkeyNum] at hlt
      rw [Double.lt_iff_place (hnum t ht) hkeyNum]
      have := hle _ hmem
      omega
  · exact absurd ⟨rfl, rfl⟩ h

/-- A place is found at once, or among the keys once they are spread out. -/
theorem place_eq_ok {key : Double} {s' : Store} :
    s.place p moving before after = .ok (key, s') ↔
      ∃ b a, s.neighborKeys p moving before after = .ok (b, a) ∧
        ((keyBetween? b a = .ok (some key) ∧ s' = s) ∨
          (keyBetween? b a = .ok none ∧ s' = s.rebalance p moving ∧
            ∃ b' a', s'.neighborKeys p moving before after = .ok (b', a') ∧
            keyBetween? b' a' = .ok (some key))) := by
  unfold place
  simp only [bind_eq_ok, Prod.exists]
  refine exists_congr fun b => exists_congr fun a => and_congr_right fun _ => ?_
  constructor
  · rintro ⟨found, hfound, h⟩
    cases found with
    | some x =>
      simp only [Except.ok.injEq, Prod.mk.injEq] at h
      obtain ⟨rfl, rfl⟩ := h
      exact .inl ⟨hfound, rfl⟩
    | none =>
      simp only [bind_eq_ok, Prod.exists] at h
      obtain ⟨b', a', hkeys, found', hfound', h⟩ := h
      cases found' with
      | none => simp at h
      | some x =>
        simp only [Except.ok.injEq, Prod.mk.injEq] at h
        obtain ⟨rfl, rfl⟩ := h
        exact .inr ⟨hfound, rfl, b', a', hkeys, hfound'⟩
  · rintro (⟨hfound, rfl⟩ | ⟨hfound, rfl, b', a', hkeys, hfound'⟩)
    · exact ⟨_, hfound, rfl⟩
    · refine ⟨_, hfound, ?_⟩
      simp only [bind_eq_ok, Prod.exists]
      exact ⟨b', a', hkeys, _, hfound', rfl⟩

/-- The key that is found is the one between the keys that the neighbors have then. -/
theorem keys_of_place {key : Double} {s' : Store}
    (h : s.place p moving before after = .ok (key, s')) :
    ∃ b a, s'.neighborKeys p moving before after = .ok (b, a) ∧
    keyBetween? b a = .ok (some key) := by
  obtain ⟨b, a, hkeys, ⟨hkey, rfl⟩ | ⟨-, rfl, b', a', hkeys', hkey'⟩⟩ := place_eq_ok.1 h
  · exact ⟨b, a, hkeys, hkey⟩
  · exact ⟨b', a', hkeys', hkey'⟩

/-- At most the keys of the scope are spread out while a place is sought. -/
theorem store_of_place {key : Double} {s' : Store}
    (h : s.place p moving before after = .ok (key, s')) :
    s' = s ∨ s' = s.rebalance p moving := by
  obtain ⟨b, a, -, ⟨-, hs'⟩ | ⟨-, hs', -⟩⟩ := place_eq_ok.1 h
  · exact .inl hs'
  · exact .inr hs'

section

variable (hids : (s.tasks.map (·.id)).Nodup)

include hids

theorem nodup_place {key : Double} {s' : Store}
    (h : s.place p moving before after = .ok (key, s')) :
    (s'.tasks.map (·.id)).Nodup := by
  obtain rfl | rfl := store_of_place h
  · exact hids
  · exact nodup_rebalance hids p moving

/-- The search for a place writes to tasks only. -/
theorem eq_of_place {key : Double} {s' : Store}
    (h : s.place p moving before after = .ok (key, s')) :
    s' = { s with tasks := s'.tasks } := by
  obtain rfl | rfl := store_of_place h
  · rfl
  · rw [rebalance_eq hids]

theorem isNaN_key_place (hnum : ∀ t ∈ s.tasks, (t.key p.scope).isNaN = false) {key : Double}
    {s' : Store} (h : s.place p moving before after = .ok (key, s')) :
    ∀ t ∈ s'.tasks, (t.key p.scope).isNaN = false := by
  obtain rfl | rfl := store_of_place h
  · exact hnum
  · exact isNaN_key_rebalance hids hnum

variable (hfew : (s.othersIn p moving).length < 2 ^ 50)

include hfew

theorem isNaN_othersIn_rebalance :
    ∀ t ∈ (s.rebalance p moving).othersIn p moving, (t.key p.scope).isNaN = false := by
  intro t ht
  obtain ⟨k, -, -, hk⟩ := key_othersIn_rebalance hids hfew ht
  rw [hk]
  exact Position.isNaN_halfSpacings _

variable (hnum : ∀ t ∈ s.tasks, (t.key p.scope).isNaN = false)

include hnum

/-- The key that is found lies between the neighbors as they are stored then. -/
theorem between_of_place {key : Double} {s' : Store}
    (h : s.place p moving before after = .ok (key, s')) :
    s'.Between p moving before after key := by
  obtain ⟨b, a, hkeys, ⟨hkey, rfl⟩ | ⟨-, rfl, b', a', hkeys', hkey'⟩⟩ := place_eq_ok.1 h
  · exact between_of_keyBetween? hids (fun t ht => hnum t (mem_othersIn.1 ht).1) hkeys hkey
  · exact between_of_keyBetween? (nodup_rebalance hids p moving)
      (isNaN_othersIn_rebalance hids hfew) hkeys' hkey'

/-- Spread keys leave room between neighbors that fit. -/
theorem exists_key_of_rebalance (hfits : s.Fits p moving before after) :
    ∃ b a key, (s.rebalance p moving).neighborKeys p moving before after = .ok (b, a) ∧
      keyBetween? b a = .ok (some key) := by
  have hids' := nodup_rebalance hids p moving
  have hmem : ∀ t ∈ s.othersIn p moving,
      t.rekeyed p.scope (s.spreadKeys p moving) ∈ (s.rebalance p moving).othersIn p moving :=
    fun t ht => othersIn_rebalance hids p moving ▸ List.mem_map_of_mem ht
  rcases before with - | i <;> rcases after with - | j
  · -- Without neighbors the key goes behind the greatest one, if there are others.
    have hkeys : (s.rebalance p moving).neighborKeys p moving none none =
        .ok ((s.rebalance p moving).tailKey p moving, none) := rfl
    cases htail : (s.rebalance p moving).tailKey p moving with
    | none => exact ⟨_, _, _, hkeys, by rw [htail]; exact keyBetween?_alone⟩
    | some g =>
      obtain ⟨hg, -⟩ := greatest?_eq_some (by simpa using isNaN_othersIn_rebalance hids hfew) htail
      obtain ⟨t, ht, rfl⟩ := List.mem_map.1 hg
      obtain ⟨k, -, hk, hkey⟩ := key_othersIn_rebalance hids hfew ht
      exact ⟨_, _, _, hkeys, by rw [htail, hkey]; exact keyBetween?_behind hk⟩
  · obtain ⟨u, hu, rfl⟩ := hfits.after_mem j rfl
    obtain ⟨k, hpos, hk, hkey⟩ := key_othersIn_rebalance hids hfew (hmem u hu)
    have hafter := optionalKey_of_mem hids' (hmem u hu)
    rw [Task.id_rekeyed, hkey] at hafter
    exact ⟨_, _, _, neighborKeys_eq_ok.2 (.inr ⟨by simp, rfl, hafter⟩), keyBetween?_ahead hpos hk⟩
  · obtain ⟨t, ht, rfl⟩ := hfits.before_mem i rfl
    obtain ⟨k, -, hk, hkey⟩ := key_othersIn_rebalance hids hfew (hmem t ht)
    have hbefore := optionalKey_of_mem hids' (hmem t ht)
    rw [Task.id_rekeyed, hkey] at hbefore
    exact ⟨_, _, _, neighborKeys_eq_ok.2 (.inr ⟨by simp, hbefore, rfl⟩), keyBetween?_behind hk⟩
  · obtain ⟨t, ht, rfl⟩ := hfits.before_mem i rfl
    obtain ⟨u, hu, rfl⟩ := hfits.after_mem j rfl
    obtain ⟨k, -, hk, hkey⟩ := key_othersIn_rebalance hids hfew (hmem t ht)
    obtain ⟨l, -, hl, hkey'⟩ := key_othersIn_rebalance hids hfew (hmem u hu)
    have hbefore := optionalKey_of_mem hids' (hmem t ht)
    have hafter := optionalKey_of_mem hids' (hmem u hu)
    rw [Task.id_rekeyed] at hbefore hafter
    -- The old order of the neighbors is the order of their multiples.
    have hlt : k < l := by
      have hprec := hfits.precedes t ht u hu rfl rfl
      rw [Task.precedes_iff_spot (hnum t (mem_othersIn.1 ht).1) (hnum u (mem_othersIn.1 hu).1),
        ← rebalance_lt_iff hids hnum hfew ht hu, hkey, hkey',
        Position.halfSpacings_lt (by omega) (by omega)] at hprec
      omega
    exact ⟨_, _, _, neighborKeys_eq_ok.2 (.inr ⟨by simp, hbefore, hafter⟩),
      by rw [hkey, hkey']; exact keyBetween?_between hlt hl⟩

/-- A place is found for neighbors that fit. -/
theorem exists_place (hfits : s.Fits p moving before after) :
    ∃ key s', s.place p moving before after = .ok (key, s') := by
  obtain ⟨b, a, hkeys⟩ := (exists_neighborKeys hids).2 ⟨hfits.before_mem, hfits.after_mem⟩
  -- Neighbors that fit may have equal keys, but not keys in the wrong order.
  have horder : ∀ x y, b = some x → a = some y → ¬y < x := by
    rintro x y rfl rfl hlt
    rcases neighborKeys_eq_ok.1 hkeys with ⟨-, -, -, h⟩ | ⟨-, hb, ha⟩
    · simp at h
    · rcases (optionalKey_eq_ok hids).1 hb with ⟨-, h⟩ | ⟨t, ht, hbefore, h⟩
      · simp at h
      rcases (optionalKey_eq_ok hids).1 ha with ⟨-, h'⟩ | ⟨u, hu, hafter, h'⟩
      · simp at h'
      obtain rfl := Option.some.inj h
      obtain rfl := Option.some.inj h'
      rcases hfits.precedes t ht u hu hbefore hafter with hprec | ⟨hprec, -⟩
      · exact Double.lt_asymm hprec hlt
      · exact hprec hlt
  have hfound := keyBetween?_eq_ok.2 ⟨horder, rfl⟩
  split at hfound
  · obtain ⟨b', a', key, hkeys', hkey⟩ := exists_key_of_rebalance hids hfew hnum hfits
    exact ⟨key, _, place_eq_ok.2 ⟨b, a, hkeys, .inr ⟨hfound, rfl, b', a', hkeys', hkey⟩⟩⟩
  · exact ⟨_, s, place_eq_ok.2 ⟨b, a, hkeys, .inl ⟨hfound, rfl⟩⟩⟩

end

end Store

end Kanban
