import LocalFlow.Library.Calls
import LocalFlow.Storage.History

/-! Deferred values over whole histories of the database file: the integers of one sequence only go
up, and a task keeps the ones allocated for it wherever its draft refers to them. -/
namespace LocalFlow
open Faults Transition

namespace Store

/-- The stored task is its draft with these integers in place. -/
structure Carries (draft : TaskDraft) (allocated : List Allocation) (row : TaskRecord) : Prop where
  requests : allocated.map (fun allocation => (allocation.name, allocation.request)) =
    draft.deferredValues
  name : (Allocation.values allocated).Fills draft.name row.name
  workingDirectory : (Allocation.values allocated).Fills draft.workingDirectory row.workingDirectory
  command : List.Forall₂ (Allocation.values allocated).Fills draft.command row.command
  labels : ∃ filled, List.Forall₂ (Allocation.values allocated).Fills draft.labels filled ∧
    row.labels = filled.map strip
  mutexKeys : ∃ filled, List.Forall₂ (Allocation.values allocated).Fills draft.mutexKeys filled ∧
    row.mutexKeys = filled.map strip
  custom : row.state.terminal = false → ∃ filled,
    (Allocation.values allocated).FilledFields draft.custom filled ∧
    row.custom = filled ++
      allocated.map (fun allocation => (allocation.name, Json.int allocation.value))

/-- The draft of the task last stored under an id. -/
def draftOf (commits : List StoreCommit) (id : TaskId) : Option (TaskDraft × List Allocation) :=
  (commits.filterMap (fun commit => match commit with
    | .task other draft allocated _ => if other = id then some (draft, allocated) else none
    | .migration _ _ => none)).getLast?

/-- The integers go up, and every stored task with deferred values carries its own. -/
structure Faithful (store : Store) : Prop where
  ascending : Sequence.Ascending (store.issued.map Allocation.draw) store.metadata.get
  carried : ∀ id row draft allocated, store.db.getTask id = some row →
    draftOf store.commits id = some (draft, allocated) → draft.deferredValues ≠ [] →
    Carries draft allocated row

section Substitution
variable {values : Values}

theorem resolvedString_fills {text filled : String} (done : resolvedString values text = some filled) :
    values.Fills text filled := by
  unfold resolvedString at done
  split at done
  · rename_i s resolved
    cases done
    cases Values.resolve_filled resolved with
    | text _ fills => exact fills
  · cases done

/-- An item of a command that is one reference is written out in digits like any other. -/
theorem resolvedItem_fills {text filled : String}
    (done : (values.resolve (.str text)).map Json.text = some filled) : values.Fills text filled := by
  obtain ⟨json, resolved, rfl⟩ := Option.map_eq_some_iff.mp done
  cases Values.resolve_filled resolved with
  | text _ fills => exact fills
  | @reference _ name n refers known =>
    have digits : values.decimal name.toList = some (toString n).toList := by
      simp [Values.decimal, known]
    have fills := References.Fills.reference refers digits .nil
    rw [List.append_nil] at fills
    exact fills

end Substitution

theorem normalizedUnique_strip {items normalized : List String}
    (done : normalizedUnique items = some normalized) : normalized = items.map strip := by
  unfold normalizedUnique at done
  simp only at done
  split at done
  · cases done
  · split at done
    · exact (Option.some.inj done).symm
    · cases done

/-- Validation strips the labels and keys and leaves everything else alone. -/
theorem validate_fields {draft task : TaskCreate} (valid : draft.validate = some task) :
    task = { draft with labels := draft.labels.map strip, mutexKeys := draft.mutexKeys.map strip } := by
  unfold TaskCreate.validate at valid
  split at valid
  · simp only [Option.bind_eq_bind, Option.bind_eq_some_iff, Option.some.injEq] at valid
    obtain ⟨labels, one, keys, two, rfl⟩ := valid
    rw [normalizedUnique_strip one, normalizedUnique_strip two]
  · cases valid

theorem settles_carries {draft : TaskDraft} {allocated : List Allocation} {task : TaskCreate}
    (settles : Settles draft allocated task) (deferred : draft.deferredValues ≠ []) (id : TaskId)
    (createdAt : String) (status : TaskStatus) :
    Carries draft allocated (TaskRecord.fresh id task createdAt status) := by
  have resolves := settles.filled deferred
  unfold resolved at resolves
  simp only [Option.bind_eq_bind, Option.bind_eq_some_iff] at resolves
  obtain ⟨name, named, directory, placed, command, commanded, labels, labelled, keys, keyed, custom,
    customized, rest⟩ := resolves
  split at rest
  · cases rest
  · have fields := validate_fields rest
    subst fields
    refine ⟨settles.requests, resolvedString_fills named, resolvedString_fills placed,
      Calls.mapM_forall₂ (fun _ _ => resolvedItem_fills) commanded,
      ⟨labels, Calls.mapM_forall₂ (fun _ _ => resolvedString_fills) labelled, rfl⟩,
      ⟨keys, Calls.mapM_forall₂ (fun _ _ => resolvedString_fills) keyed, rfl⟩, fun _ =>
      ⟨custom, Values.resolveFields_filled customized, ?_⟩⟩
    simp [TaskRecord.fresh, Allocation.values]

theorem Retains.carries {draft : TaskDraft} {allocated : List Allocation} {old row : TaskRecord}
    (retains : Retains old row) (carries : Carries draft allocated old) :
    Carries draft allocated row where
  requests := carries.requests
  name := retains.name ▸ carries.name
  workingDirectory := retains.workingDirectory ▸ carries.workingDirectory
  command := retains.command ▸ carries.command
  labels := retains.labels ▸ carries.labels
  mutexKeys := retains.mutexKeys ▸ carries.mutexKeys
  custom := by
    intro going
    obtain same | ⟨_, ended⟩ := retains.custom
    · rw [same]
      exact carries.custom (retains.live going)
    · rw [going] at ended
      cases ended

variable {s t : Store}

theorem draftOf_append (commits more : List StoreCommit) (id : TaskId) :
    draftOf (commits ++ more) id = (draftOf more id).or (draftOf commits id) := by
  simp [draftOf, List.filterMap_append, List.getLast?_append]

theorem draftOf_other {request : Option (String × String)} {entries : List Entry} {id : TaskId}
    (absent : id ∉ entries.map Entry.id) : draftOf (entries.map (Entry.commit request)) id = none := by
  induction entries with
  | nil => rfl
  | cons entry rest ih =>
    rw [List.map_cons, List.mem_cons, not_or] at absent
    rw [List.map_cons, ← List.singleton_append, draftOf_append, ih absent.2]
    simp [draftOf, Entry.commit, Ne.symm absent.1]

/-- The draft of an id a submission just stored is the one it was stored from. -/
theorem draftOf_entries {request : Option (String × String)} {entries : List Entry} {entry : Entry}
    (distinct : (entries.map Entry.id).Nodup) (member : entry ∈ entries) :
    draftOf (entries.map (Entry.commit request)) entry.id = some (entry.draft, entry.allocated) := by
  induction entries with
  | nil => cases member
  | cons first rest ih =>
    rw [List.map_cons, List.nodup_cons] at distinct
    rw [List.map_cons, ← List.singleton_append, draftOf_append]
    rcases List.mem_cons.mp member with rfl | later
    · rw [draftOf_other distinct.1]
      simp [draftOf, Entry.commit]
    · rw [ih distinct.2 later]
      rfl

theorem draftOf_migrations (commits : List StoreCommit) (allocations : List (TaskId × Allocation))
    (id : TaskId) : draftOf (commits ++ allocations.map (fun entry => .migration entry.1 entry.2)) id =
      draftOf commits id := by
  have none : draftOf (allocations.map (fun entry => .migration entry.1 entry.2)) id = none := by
    simp [draftOf, List.filterMap_map]
  rw [draftOf_append, none, Option.none_or]

theorem faithful_empty : Faithful .empty where
  ascending := Sequence.ascending_nil _
  carried := by
    intro id row draft allocated found
    cases found

theorem Faithful.appended {createdAt : String} {request : Option (String × String)}
    {entries : List Entry}
    (faithful : Faithful s) (appended : Appended createdAt request entries s t) : Faithful t where
  ascending := by
    have issued : t.issued.map Allocation.draw =
        s.issued.map Allocation.draw ++ entries.flatMap Entry.draws := by
      simp [issued, appended.commits, List.flatMap_map, List.map_flatMap]
      rfl
    rw [issued]
    exact appended.draws.ascending faithful.ascending
  carried := by
    intro id row draft allocated found drafted deferred
    have unique := t.db.tasks.primaryKey
    rw [appended.rows, List.map_append, List.map_map] at unique
    have ids : TaskRecord.id ∘ Entry.row createdAt = Entry.id := rfl
    rw [ids, List.nodup_append] at unique
    obtain ⟨_, distinct, apart⟩ := unique
    obtain ⟨member, rfl⟩ := Tasks.get?_mem found
    rw [appended.commits, draftOf_append] at drafted
    rw [appended.rows, List.mem_append] at member
    rcases member with old | new
    · have absent : row.id ∉ entries.map Entry.id :=
        fun again => apart _ (List.mem_map_of_mem old) _ again rfl
      rw [draftOf_other absent, Option.none_or] at drafted
      exact faithful.carried _ row draft allocated (Tasks.get?_of_mem old) drafted deferred
    · obtain ⟨entry, member, rfl⟩ := List.mem_map.mp new
      have named : (Entry.row createdAt entry).id = entry.id := rfl
      rw [named, draftOf_entries distinct member, Option.some_or] at drafted
      cases drafted
      exact settles_carries (appended.valid entry member).settles deferred _ _ _

theorem Faithful.edit (faithful : Faithful s) {asked : Option (String × String)}
    (edit : Edit asked s t) : Faithful t := by
  cases edit with
  | task stored => exact faithful.appended stored.appended
  | batch stored => exact faithful.appended stored.appended
  | receipt taskId createdAt keyed =>
    unfold putReceipt
    split
    · exact faithful
    · exact ⟨faithful.ascending, faithful.carried⟩
  | update revised =>
    refine ⟨faithful.ascending, fun id row draft allocated found drafted deferred => ?_⟩
    obtain ⟨old, was, kept⟩ := revised.rows id row found
    exact kept.carries (faithful.carried id old draft allocated was drafted deferred)

theorem Faithful.deleted (faithful : Faithful s) (deleted : Deleted s t) : Faithful t where
  ascending := by
    unfold issued
    rw [deleted.commits, deleted.metadata]
    exact faithful.ascending
  carried := by
    intro id row draft allocated found drafted
    rw [deleted.commits] at drafted
    exact faithful.carried id row draft allocated (deleted.rows id row found) drafted

theorem Faithful.edits (faithful : Faithful s) {asked : Option (String × String)}
    (edits : Edits asked s t) : Faithful t := by
  induction edits with
  | refl => exact faithful
  | tail _ edit ih => exact ih.edit edit

/-- No queued task with deferred values carries the marker of the former seed contract. -/
def Unmarked (store : Store) : Prop :=
  ∀ row ∈ store.db.tasks.rows, legacySeed row = true → ∀ draft allocated,
    draftOf store.commits row.id = some (draft, allocated) → draft.deferredValues = []

theorem Faithful.migrated {allocations : List (TaskId × Allocation)} (faithful : Faithful s)
    (unmarked : s.Unmarked)
    (ids : allocations.map Prod.fst = (s.db.tasks.rows.filter legacySeed).map TaskRecord.id)
    (migrated : Migrated allocations s t) : Faithful t where
  ascending := by
    have issued : t.issued.map Allocation.draw =
        s.issued.map Allocation.draw ++ allocations.map (fun entry => entry.2.draw) := by
      simp only [issued, migrated.commits, List.flatMap_append, List.map_append, List.flatMap_map,
        StoreCommit.allocated, ← List.map_eq_flatMap, List.map_map]
      rfl
    rw [issued]
    exact migrated.draws.ascending faithful.ascending
  carried := by
    intro id row draft allocated found drafted deferred
    rw [migrated.commits, draftOf_migrations] at drafted
    by_cases legacy : id ∈ allocations.map Prod.fst
    · rw [ids] at legacy
      obtain ⟨old, member, rfl⟩ := List.mem_map.mp legacy
      obtain ⟨stored, marked⟩ := List.mem_filter.mp member
      exact absurd (unmarked old stored marked draft allocated drafted) deferred
    · rw [migrated.others id legacy] at found
      exact faithful.carried id row draft allocated found drafted deferred

/-- The controller starts only on a file without such tasks. -/
def StartsUnmarked (store : Store) : StoreAct → Prop
  | .restart _ _ => store.Unmarked
  | _ => True

theorem Faithful.step {act : StoreAct} (faithful : Faithful s)
    (step : Guarded Step StartsUnmarked s act t) :
    Faithful t := by
  obtain ⟨rfl, guard⟩ := step
  rcases apply_cases s act with ⟨faults, clock, rfl⟩ | deletes | edits
  · rcases migrateLegacySeeds_cases clock faults s with same | ⟨allocations, ids, migrated⟩
    · have rest : s.apply (.restart faults clock) = s := same
      rw [rest]
      exact faithful
    · exact faithful.migrated guard ids migrated
  · exact faithful.deleted (deleted_apply deletes)
  · exact faithful.edits edits

end Store

section Runs
open Store
variable {acts : List StoreAct} {store : Store}

/-- From an empty file, with any statement failing and any clock: the integers of every sequence go
up in commit order, and a stored task whose draft declared deferred values is that draft with its
own integers in place. -/
theorem deferred_values_kept (run : Run (Guarded Store.Step StartsUnmarked) .empty acts store) :
    (∀ source nameSpace, ((store.issued.filter (fun allocation =>
      allocation.request.source = source ∧ allocation.request.nameSpace = nameSpace)).map
        Allocation.value).Pairwise (· < ·)) ∧
    ∀ id row draft allocated, store.db.getTask id = some row →
      draftOf store.commits id = some (draft, allocated) → draft.deferredValues ≠ [] →
      Carries draft allocated row := by
  have faithful : Faithful store :=
    run.invariant (fun faithful step => faithful.step step) faithful_empty
  refine ⟨fun source nameSpace => ?_, faithful.carried⟩
  have sorted := (faithful.ascending ("deferred:" ++ source.value ++ ":" ++ nameSpace)).1
  refine sorted.sublist ?_
  rw [Sequence.drawn, List.filter_map, List.map_map]
  refine List.Sublist.map _ (List.monotone_filter_right _ (fun allocation asked => ?_))
  obtain ⟨rfl, rfl⟩ := of_decide_eq_true asked
  simp [Allocation.draw, DeferredValue.metadataKey]

theorem seed_distinct : ([("seed", seedRequest)].map Prod.fst).Nodup := by simp

theorem seed_named : ∀ entry ∈ [("seed", seedRequest)], variableName.Named entry.1.toList := by
  intro entry member
  rw [List.mem_singleton.mp member]
  exact ⟨'s', ['e', 'e', 'd'], by decide, by decide, List.all_eq_true.mp (by decide)⟩

theorem seed_count : [("seed", seedRequest)].length ≤ 32 := by simp

/-- A draft with one deferred value and some custom data. -/
def seedDraft (custom : Object) : TaskDraft where
  toTaskCreate := { TaskCreate.keyed [] with command := ["echo", "$\x7bseed\x7d"], custom }
  deferredValues := [("seed", seedRequest)]
  distinct := seed_distinct
  named := seed_named
  count := seed_count

def seedPost (custom : Object) : StoreAct :=
  .post none "agent" none ⟨some (seedDraft custom), "2026", fun _ => 5, "a", "2026"⟩

theorem deferred_values_kept_seed : ∃ store row draft allocated,
    Run (Guarded Store.Step StartsUnmarked) .empty [seedPost [], .restart none (fun _ => 5)] store ∧
    store.db.getTask "a" = some row ∧ draftOf store.commits "a" = some (draft, allocated) ∧
    Carries draft allocated row := by
  let posted := Store.empty.apply (seedPost [])
  let store := posted.apply (.restart none (fun _ => 5))
  have plain : posted.db.tasks.rows.all (fun row => !legacySeed row) = true := by decide +kernel
  have kept : ((store.db.getTask "a").isSome && (draftOf store.commits "a").any (fun drafted =>
      !drafted.1.deferredValues.isEmpty)) = true := by decide +kernel
  obtain ⟨stored, drafted⟩ := Bool.and_eq_true _ _ |>.mp kept
  obtain ⟨row, found⟩ := Option.isSome_iff_exists.mp stored
  obtain ⟨⟨draft, allocated⟩, last, deferred⟩ := Option.any_eq_true _ _ |>.mp drafted
  have unmarked : posted.Unmarked := by
    intro row member legacy
    have clean := List.all_eq_true.mp plain row member
    rw [legacy] at clean
    cases clean
  have run : Run (Guarded Store.Step StartsUnmarked) .empty
    [seedPost [], .restart none (fun _ => 5)] store :=
    .cons ⟨rfl, trivial⟩ (.cons ⟨rfl, unmarked⟩ (.nil _))
  refine ⟨store, row, draft, allocated, run, found, last, ?_⟩
  exact (deferred_values_kept run).2 "a" row draft allocated found last (by simpa using deferred)

theorem filledFields_length {values : Values} : ∀ {fields filled : Object},
    values.FilledFields fields filled → filled.length = fields.length
  | _, _, .nil => rfl
  | _, _, .cons _ rest => by simp [filledFields_length rest]

/-- A draft that carries the marker itself loses its integer at the next start. -/
theorem marker_replaces_seed : ∃ acts store id row draft allocated,
    Run Store.Step .empty acts store ∧ store.db.getTask id = some row ∧
    draftOf store.commits id = some (draft, allocated) ∧ draft.deferredValues ≠ [] ∧
    ¬ Carries draft allocated row := by
  let store := (Store.empty.apply (seedPost [("_runtime_seed", .str "unix")])).apply
    (.restart none (fun _ => 6))
  have lost : ((store.db.getTask "a").any (fun row => row.custom.length = 1 && !row.state.terminal) &&
      (draftOf store.commits "a").any (fun drafted => !drafted.1.deferredValues.isEmpty &&
        (drafted.1.custom.length = 1 && drafted.2.length = 1))) = true := by decide +kernel
  obtain ⟨stored, drafted⟩ := Bool.and_eq_true _ _ |>.mp lost
  obtain ⟨row, found, short⟩ := Option.any_eq_true _ _ |>.mp stored
  obtain ⟨⟨draft, allocated⟩, last, declared⟩ := Option.any_eq_true _ _ |>.mp drafted
  simp only [Bool.and_eq_true, decide_eq_true_eq, Bool.not_eq_true'] at short declared
  refine ⟨_, store, "a", row, draft, allocated, .cons rfl (.cons rfl (.nil _)), found, last, ?_, ?_⟩
  · rintro empty
    simp [empty] at declared
  · intro carries
    obtain ⟨filled, fills, custom⟩ := carries.custom short.2
    have long := congrArg List.length custom
    rw [List.length_append, filledFields_length fills, List.length_map, short.1, declared.2.1,
      declared.2.2] at long
    cases long

end Runs
end LocalFlow
