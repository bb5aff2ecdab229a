import Kanban.Proofs.Import.Rows

/-!
# Imports are faithful

An import succeeds unless a title is blank or a limit negative.  Then its projects, buckets and
tasks are new rows in the order of their entries, entries with the same label share its row, and no
row from before is changed; else the store stays as it was (`Store.importProjects_exact`).
-/

namespace Kanban

/-- The labels of all tasks of a project. -/
def ProjectImport.labels (i : ProjectImport) : List LabelImport :=
  i.buckets.flatMap fun b => b.tasks.flatMap (·.labels)

namespace Store

variable {s s' : Store} {owner : User} {is : List ProjectImport} {ps : List Project}

/-- Every entry has a new label with its trimmed title and its color, and shares it with just the
entries that agree in both. -/
structure LabelRows (new : List Label) (labelOf : LabelImport → Option Int)
    (entries : List LabelImport) : Prop where
  row : ∀ l ∈ entries, ∃ x ∈ new, labelOf l = some x.id ∧ x.title = Text.trimmed l.title ∧
    x.hexColor = Color.hex l.color
  shared : ∀ l ∈ entries, ∀ l' ∈ entries,
    labelOf l = labelOf l' ↔ Text.trimmed l.title = Text.trimmed l'.title ∧
    Color.hex l.color = Color.hex l'.color

/-- The store after an import: the rows from before, and behind them the new ones, which make up the
given projects. -/
structure Imported (s s' : Store) (owner : User) (is : List ProjectImport)
    (ps : List Project) : Prop where
  projects : s'.projects = s.projects ++ ps
  buckets : ∃ new, s'.buckets = s.buckets ++ new ∧ ∀ b ∈ new, ∃ p ∈ ps, p.id = b.projectId
  tasks : ∃ new, s'.tasks = s.tasks ++ new ∧ ∀ t ∈ new, ∃ p ∈ ps, p.id = t.projectId
  links : ∃ new, s'.labelLinks = s.labelLinks ++ new ∧ ∀ k ∈ new, ∀ t ∈ s.tasks, t.id ≠ k.taskId
  kept : s'.users = s.users ∧ s'.shares = s.shares ∧ s'.assignments = s.assignments
  rows : ∃ new labelOf, s'.labels = s.labels ++ new ∧
    LabelRows new labelOf (is.flatMap (·.labels)) ∧
    List.Forall₂ (s'.ProjectRow labelOf owner) is ps

/-! ### Labels -/

/-- Every label of an imported task is one of the rows. -/
theorem isSome_labelOf {labelOf : LabelImport → Option Int}
    (h : List.Forall₂ (s'.ProjectRow labelOf owner) is ps) {l : LabelImport}
    (hl : l ∈ is.flatMap (·.labels)) : (labelOf l).isSome := by
  simp only [ProjectImport.labels, List.mem_flatMap] at hl
  obtain ⟨i, hi, b, hb, t, ht, hl⟩ := hl
  have hadd : b ∈ i.bucketsToAdd := by
    rw [ProjectImport.bucketsToAdd, if_neg (by rw [List.isEmpty_iff]; exact List.ne_nil_of_mem hb)]
    exact hb
  obtain ⟨p, -, hproject⟩ := exists_of_forall₂ h hi
  obtain ⟨bucket, -, hbucket⟩ := exists_of_forall₂ hproject.buckets hadd
  obtain ⟨task, -, htask⟩ := exists_of_forall₂ hbucket.tasks ht
  exact htask.labels_listed l hl

/-- The index of a whole import lists the new labels. -/
theorem labelRows_of_listed {new : List Label} (hids : (new.map (·.id)).Nodup)
    {entries : List LabelImport}
    (hlisted : ∀ l ∈ entries, (LabelIndex.labelOf (new.map Label.entry) l).isSome) :
    LabelRows new (LabelIndex.labelOf (new.map Label.entry)) entries := by
  have hrow : ∀ l ∈ entries, ∃ x ∈ new, LabelIndex.labelOf (new.map Label.entry) l = some x.id ∧
      (x.title, x.hexColor) = l.key := fun l hl => by
    obtain ⟨id, hid⟩ := Option.isSome_iff_exists.1 (hlisted l hl)
    obtain ⟨before, after, heq, -⟩ := List.lookup_eq_some_iff.1 hid
    obtain ⟨x, hx, hentry⟩ := List.mem_map.1 (show (l.key, id) ∈ new.map Label.entry by simp [heq])
    obtain ⟨hkey, rfl⟩ := Prod.mk.inj hentry
    exact ⟨x, hx, hid, hkey⟩
  refine ⟨fun l hl => ?_, fun l hl l' hl' => ?_⟩
  · obtain ⟨x, hx, hid, hkey⟩ := hrow l hl
    exact ⟨x, hx, hid, Prod.mk.inj hkey⟩
  · rw [← Prod.mk.injEq]
    constructor
    · intro heq
      obtain ⟨x, hx, hid, hkey⟩ := hrow l hl
      obtain ⟨x', hx', hid', hkey'⟩ := hrow l' hl'
      rw [hid, hid', Option.some_inj] at heq
      obtain rfl := eq_of_key_eq hids hx hx' heq
      exact hkey.symm.trans hkey'
    · intro heq
      unfold LabelIndex.labelOf LabelImport.key
      rw [heq]

/-! ### The whole import -/

theorem run_importProjects {setup : Setup} {actor : Int} (hactor : s.actor actor = .ok owner)
    {a : Answer} :
    (Operation.importProjects actor is).run setup s = .ok (a, s') ↔
      ∃ ps, s.importProjects [] owner is = .ok (ps, s') ∧ .projects ps = a := by
  simp only [Operation.run, importAll, hactor, bind_eq_ok, Prod.exists, Except.ok.injEq,
    Prod.mk.injEq]
  constructor
  · rintro ⟨ps, _, ⟨_, rfl, h⟩, ha, rfl⟩
    exact ⟨ps, h, ha⟩
  · rintro ⟨ps, h, ha⟩
    exact ⟨ps, s', ⟨owner, rfl, h⟩, ha, rfl⟩

theorem imported_of_importProjects (hs : s.Reachable) (hs' : s'.Reachable)
    (h : s.importProjects [] owner is = .ok (ps, s')) : s.Imported s' owner is ps := by
  obtain ⟨index, hgrown, hprojects, hrows⟩ := importProjects_rows hs.fit h
  obtain ⟨labels, hlabels, rfl⟩ := hgrown.indexed.labels
  obtain ⟨links, hlinks, hnew⟩ := hgrown.links
  -- A project above the old ones is one of the new ones.
  have hnewProject : ∀ {id : Int}, (∃ p ∈ s'.projects, p.id = id) → s.lastProject < id →
      ∃ p ∈ ps, p.id = id := by
    rintro id ⟨p, hp, rfl⟩ habove
    rw [hprojects] at hp
    refine ⟨p, (List.mem_append.1 hp).resolve_left fun hold => ?_, rfl⟩
    have := hs.regular.projects.le p.id (List.mem_map_of_mem hold)
    omega
  refine ⟨hprojects, ?_, ?_, ⟨links, hlinks, fun k hk t ht => ?_⟩, hgrown.kept, labels, _,
    hlabels, ?_, hrows⟩
  · obtain ⟨new, hbuckets, habove⟩ := hgrown.buckets
    refine ⟨new, hbuckets.rows_eq, fun b hb => hnewProject (hs'.owned.buckets b ?_) (habove b hb)⟩
    rw [hbuckets.rows_eq]
    exact List.mem_append_right _ hb
  · obtain ⟨new, htasks, habove⟩ := hgrown.tasks
    refine ⟨new, htasks.rows_eq, fun t ht => hnewProject ?_ (habove t ht).2.1⟩
    obtain ⟨b, hb, -, hproject⟩ := hs'.integral.taskBucket t (by
      rw [htasks.rows_eq]
      exact List.mem_append_right _ ht)
    exact hproject ▸ hs'.owned.buckets b hb
  · have := hs.regular.tasks.le t.id (List.mem_map_of_mem ht)
    have := hnew k hk
    omega
  · have hids := hs'.regular.labels.nodup
    rw [hlabels, List.map_append] at hids
    exact labelRows_of_listed hids.of_append_right fun l hl => isSome_labelOf hrows hl

/-- An import by a user with an account succeeds exactly if its entries have no faults.  Then it
adds their rows and changes no others, and else it changes nothing at all. -/
theorem importProjects_exact (hs : s.Reachable) {actor : Int} (hactor : s.actor actor = .ok owner)
    (setup : Setup) (is : List ProjectImport) :
    ((∃ r, (Operation.importProjects actor is).run setup s = .ok r) ↔ ∀ i ∈ is, i.Valid) ∧
      (∀ a s', (Operation.importProjects actor is).run setup s = .ok (a, s') →
        ∃ ps, a = .projects ps ∧ s.Imported s' owner is ps) ∧
      ((¬ ∀ i ∈ is, i.Valid) → (Operation.importProjects actor is).after setup s = s) := by
  have hvalid : (∃ r, (Operation.importProjects actor is).run setup s = .ok r) ↔
      ∀ i ∈ is, i.Valid := by
    constructor
    · rintro ⟨⟨a, s'⟩, hrun⟩
      obtain ⟨ps, h, -⟩ := (run_importProjects hactor).1 hrun
      exact importProjects_succeeds.1 ⟨_, h⟩
    · intro hvalid
      obtain ⟨⟨ps, s'⟩, h⟩ := importProjects_succeeds.2 hvalid
      exact ⟨_, (run_importProjects hactor).2 ⟨ps, h, rfl⟩⟩
  refine ⟨hvalid, fun a s' hrun => ?_, fun hfaults => ?_⟩
  · obtain ⟨ps, h, rfl⟩ := (run_importProjects hactor).1 hrun
    have hs' := hs.after setup (.importProjects actor is)
    rw [Operation.after, hrun] at hs'
    exact ⟨ps, rfl, imported_of_importProjects hs hs' h⟩
  · unfold Operation.after
    split
    · rename_i a s' hrun
      exact absurd (hvalid.1 ⟨_, hrun⟩) hfaults
    · rfl

/-- A board with one task. -/
def inhabited : Store :=
  [.createUser { username := "ada" }, .createProject 1 { title := "Home" },
    .createTask 1 1 { title := "Sweep" }].foldl
    (Operation.after {}) {}

/-- Two projects; a bucket has more tasks than its limit, and labels recur. -/
def plans : List ProjectImport :=
  [{ title := " Plan "
     buckets := [
      { title := "Now", limit := 1, tasks := [
        { title := "one", labels := [⟨"bug", "red"⟩, ⟨" bug ", " RED"⟩] },
        { title := "two", done := true, labels := [⟨"bug", "blue"⟩, ⟨"bug", "red"⟩] }] },
      { title := "Next" }] },
   { title := "Later" }]

/-- The first import succeeds, with two labels on three links; the other one fails for its last
project. -/
theorem importProjects_exact_plans :
    ∃ owner, inhabited.actor 1 = .ok owner ∧
      (∃ ps s', (Operation.importProjects 1 plans).run {} inhabited = .ok (.projects ps, s') ∧
        inhabited.Imported s' owner plans ps ∧
        s'.labels.map (fun l => (l.title, l.hexColor)) = [("bug", "f87168"), ("bug", "579dff")] ∧
        s'.labelLinks = [⟨2, 1⟩, ⟨3, 2⟩, ⟨3, 1⟩]) ∧
      (Operation.importProjects 1 (plans ++ [{ title := " " }])).after {} inhabited =
        inhabited := by
  have hreach : inhabited.Reachable := Reachable.empty.foldl_after {} _
  obtain ⟨owner, hactor⟩ : ∃ owner, inhabited.actor 1 = .ok owner :=
    exists_of_isOk (by decide +kernel)
  obtain ⟨hvalid, himported, -⟩ := importProjects_exact hreach hactor {} plans
  obtain ⟨-, -, hfails⟩ := importProjects_exact hreach hactor {} (plans ++ [{ title := " " }])
  obtain ⟨⟨a, s'⟩, hrun⟩ := hvalid.2 (by decide +kernel)
  obtain ⟨ps, rfl, hrows⟩ := himported a s' hrun
  have hlabels : ((Operation.importProjects 1 plans).after {} inhabited).labels.map
      (fun l => (l.title, l.hexColor)) =
      [("bug", "f87168"), ("bug", "579dff")] ∧
      ((Operation.importProjects 1 plans).after {} inhabited).labelLinks =
        [⟨2, 1⟩, ⟨3, 2⟩, ⟨3, 1⟩] := by
    decide +kernel
  rw [Operation.after, hrun] at hlabels
  exact ⟨owner, hactor, ⟨ps, s', hrun, hrows, hlabels⟩, hfails (by decide +kernel)⟩

end Store

end Kanban
