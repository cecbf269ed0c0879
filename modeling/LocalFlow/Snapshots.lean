import LocalFlow.Storage.History
import LocalFlow.Service.Updates

/-! Submitted snapshots over every history of the database file: whatever the service does, a stored
task keeps what was submitted, and the file can be opened again, unless a queued task carries the
marker of the former seed contract. -/
namespace LocalFlow
open Faults Transition

namespace Store

theorem Retains.trans {old middle row : TaskRecord} (first : Retains old middle)
    (second : Retains middle row) :
    Retains old row where
  name := second.name.trans first.name
  workingDirectory := second.workingDirectory.trans first.workingDirectory
  command := second.command.trans first.command
  labels := second.labels.trans first.labels
  mutexKeys := second.mutexKeys.trans first.mutexKeys
  template := second.template.trans first.template
  pluginSnapshot := second.pluginSnapshot.trans first.pluginSnapshot
  custom := by
    obtain early | ⟨going, ended⟩ := first.custom
    · obtain late | ⟨going, ended⟩ := second.custom
      · exact .inl (late.trans early)
      · exact .inr ⟨first.live going, ended⟩
    · refine .inr ⟨going, ?_⟩
      by_contra live
      rw [second.live (by simpa using live)] at ended
      cases ended
  stop := by
    obtain unset | early := first.stop
    · exact .inl unset
    · exact second.stop.imp early.symm.trans (fun late => late.trans early)
  live := fun live => first.live (second.live live)

/-- A submission stored the task. -/
def Commits (id : TaskId) (commits : List StoreCommit) : Prop :=
  ∃ draft allocated request, StoreCommit.task id draft allocated request ∈ commits

/-- Every stored task was submitted since, or is a task stored before with its snapshot as it was. -/
def Immutable (s t : Store) : Prop :=
  ∃ since, t.commits = s.commits ++ since ∧ ∀ id row, t.db.getTask id = some row →
    (∃ old, s.db.getTask id = some old ∧ Retains old row) ∨ Commits id since

variable {s t u : Store}

namespace Immutable

theorem refl (s : Store) : Immutable s s :=
  ⟨[], by simp, fun _ row found => .inl ⟨row, found, .refl row⟩⟩

theorem trans (first : Immutable s t) (second : Immutable t u) : Immutable s u := by
  obtain ⟨early, isEarly, before⟩ := first
  obtain ⟨late, isLate, after⟩ := second
  refine ⟨early ++ late, by rw [isLate, isEarly, List.append_assoc], fun id row found => ?_⟩
  obtain ⟨middle, stood, kept⟩ | ⟨draft, allocated, request, member⟩ := after id row found
  · obtain ⟨old, stored, same⟩ | ⟨draft, allocated, request, member⟩ := before id middle stood
    · exact .inl ⟨old, stored, same.trans kept⟩
    · exact .inr ⟨draft, allocated, request, List.mem_append_left _ member⟩
  · exact .inr ⟨draft, allocated, request, List.mem_append_right _ member⟩

/-- A change of the tables only. -/
theorem tables (commits : t.commits = s.commits)
    (rows : ∀ id row, t.db.getTask id = some row → ∃ old, s.db.getTask id = some old ∧
      Retains old row) :
    Immutable s t :=
  ⟨[], by simp [commits], fun id row found => .inl (rows id row found)⟩

end Immutable

theorem Appended.immutable {createdAt : String} {request : Option (String × String)}
    {entries : List Entry}
    (appended : Appended createdAt request entries s t) : Immutable s t := by
  refine ⟨_, appended.commits, fun id row found => ?_⟩
  obtain ⟨member, rfl⟩ := Tasks.get?_mem found
  rw [appended.rows, List.mem_append] at member
  obtain old | new := member
  · exact .inl ⟨row, Tasks.get?_of_mem old, .refl row⟩
  · obtain ⟨entry, listed, rfl⟩ := List.mem_map.mp new
    exact .inr ⟨entry.draft, entry.allocated, request, List.mem_map.mpr ⟨entry, listed, rfl⟩⟩

theorem Edit.immutable {request : Option (String × String)} (edit : Edit request s t) :
    Immutable s t := by
  cases edit with
  | task stored => exact stored.appended.immutable
  | batch stored => exact stored.appended.immutable
  | receipt taskId createdAt _ =>
    unfold putReceipt
    split
    · exact .refl s
    · exact .tables rfl (fun _ row found => ⟨row, found, .refl row⟩)
  | update revised => exact .tables rfl revised.rows

theorem immutable_edits {request : Option (String × String)} (edits : Edits request s t) :
    Immutable s t := by
  induction edits with
  | refl => exact .refl s
  | tail _ edit ih => exact ih.trans edit.immutable

/-- No queued task carries the marker of the former seed contract. -/
def Clean (store : Store) : Prop := ∀ row ∈ store.db.tasks.rows, legacySeed row = false

theorem Clean.none_listed (clean : s.Clean) : s.db.tasks.rows.filter legacySeed = [] :=
  List.filter_eq_nil_iff.mpr (fun row member => by simp [clean row member])

/-- The start of a controller on a clean file changes nothing that is stored. -/
theorem immutable_restart (clean : s.Clean) (faults : Option Nat) (clock : Nat → Int) :
    Immutable s (migrateLegacySeeds clock faults s).state := by
  obtain same | ⟨allocations, ids, migrated⟩ := migrateLegacySeeds_cases clock faults s
  · rw [same]
    exact .refl s
  · rw [clean.none_listed, List.map_nil, List.map_eq_nil_iff] at ids
    subst ids
    refine .tables (by simpa using migrated.commits) (fun id row found => ⟨row, ?_, .refl row⟩)
    rw [← migrated.others id List.not_mem_nil]
    exact found

end Store

/-- An edit of the service that submits nothing keeps every snapshot. -/
theorem retains_edit {db next : Db} (edit : Edit (fun _ => False) db next) {id : TaskId}
    {row : TaskRecord}
    (found : next.getTask id = some row) : ∃ old, db.getTask id = some old ∧ Store.Retains old row := by
  obtain ⟨_, _, _, never, _⟩ | ⟨old, stored,
    rfl | ⟨set, frame, rfl⟩ | ⟨state, fields, status, legal, stamps, rfl⟩⟩ :=
    edit.origin found
  · exact never.elim
  · exact ⟨row, stored, .refl row⟩
  · refine ⟨old, stored, ?_⟩
    obtain ⟨stop, draft, unset⟩ := frame.submitted old
    exact {
      name := by rw [draft]
      workingDirectory := by rw [draft]
      command := by rw [draft]
      labels := by rw [draft]
      mutexKeys := frame.mutexKeys old
      template := by rw [draft]
      pluginSnapshot := frame.pluginSnapshot old
      custom := by rw [draft]; exact .inl rfl
      stop := by rw [draft]; exact unset
      live := by rw [frame.state]; exact fun live => live }
  · have live := TaskState.mayBecome_not_terminal legal
    exact ⟨old, stored, Store.retains_moved old status (fun going => stamps.custom going old) live⟩

theorem retains_updates {db next : Db} (updates : Updates db next) {id : TaskId} {row : TaskRecord}
    (found : next.getTask id = some row) : ∃ old, db.getTask id = some old ∧ Store.Retains old row := by
  induction updates generalizing row with
  | refl => exact ⟨row, found, .refl row⟩
  | tail _ edit ih =>
    obtain ⟨middle, stood, kept⟩ := retains_edit edit found
    obtain ⟨old, stored, same⟩ := ih stood
    exact ⟨old, stored, same.trans kept⟩

namespace Store
variable {s t : Store}

/-- A key that was popped is not back after another one is set. -/
theorem get?_popped (fields : Object) {key other : String} (value : Json) (apart : key ≠ other) :
    Json.get? (Json.assign (dropField fields key) other value) key = none := by
  have popped : ∀ field ∈ dropField fields key, field.1 ≠ key :=
    fun field member => of_decide_eq_true (List.mem_filter.mp member).2
  unfold Json.get?
  rw [List.lookup_eq_none_iff]
  intro field member
  have left : field.1 ≠ key := by
    unfold Json.assign at member
    split at member
    · obtain ⟨old, listed, rfl⟩ := List.mem_map.mp member
      split
      · exact apart.symm
      · exact popped old listed
    · obtain listed | new := List.mem_append.mp member
      · exact popped field listed
      · rw [List.mem_singleton.mp new]
        exact apart.symm
  simpa using left.symm

theorem migrated_unmarked {row : TaskRecord} {seed : Int} {command : List String} {custom : Object}
    (done : migrated row seed = some (command, custom)) : Json.get? custom "_runtime_seed" = none := by
  simp only [migrated, Option.bind_eq_bind, Option.bind_eq_some_iff, Option.some.injEq,
    Prod.mk.injEq] at done
  obtain ⟨_, _, filled, _, _, rfl⟩ := done
  exact get?_popped filled (.int seed) (by decide)

/-- The migration takes the marker off every queued task it lists, and puts it on none. -/
theorem unmarks_migrateRows {clock : Nat → Int} {rows : List TaskRecord} {n : Nat} {done : Unit}
    (h : (migrateRows clock rows n).Returns s done t) {id : TaskId} {row : TaskRecord}
    (found : t.db.getTask id = some row) : ∃ old, s.db.getTask id = some old ∧ row.state = old.state ∧
      (id ∈ rows.map TaskRecord.id ∨ Json.get? old.custom "_runtime_seed" = none → old.state = .queued →
        Json.get? row.custom "_runtime_seed" = none) := by
  induction rows generalizing s n with
  | nil =>
    obtain ⟨_, rfl⟩ := Work.returns_pure h
    exact ⟨row, found, rfl, fun unmarked _ => unmarked.resolve_left List.not_mem_nil⟩
  | cons head rest ih =>
    obtain ⟨seed, u, draws, more⟩ := Work.returns_bind h
    obtain ⟨_, rfl⟩ := returns_allocateDeferred draws
    obtain ⟨⟨command, custom⟩, v, resolves, updates⟩ := Work.returns_bind more
    obtain ⟨resolved, rfl⟩ := Work.returns_given resolves
    obtain ⟨_, w, writes, later⟩ := Work.returns_bind updates
    have written := Work.returns_write writes
    cases written
    obtain ⟨middle, stood, same, unmarked⟩ := ih later
    by_cases here : id = head.id
    · subst here
      rw [Db.getTask, freezeSeed, Tasks.get?_update, if_pos rfl] at stood
      obtain ⟨old, stored, rfl⟩ := Option.map_eq_some_iff.mp stood
      by_cases queued : old.state = .queued
      · rw [if_pos queued] at same unmarked
        exact ⟨old, stored, same, fun _ _ => unmarked (.inr (migrated_unmarked resolved)) queued⟩
      · rw [if_neg queued] at same
        exact ⟨old, stored, same, fun _ isQueued => absurd isQueued queued⟩
    · rw [Db.getTask, freezeSeed, Tasks.get?_update, if_neg here] at stood
      refine ⟨middle, stood, same, fun listed => unmarked (listed.imp_left (fun listed => ?_))⟩
      rw [List.map_cons, List.mem_cons] at listed
      exact listed.resolve_left here

/-- A start of the controller without a failing statement opens the file and keeps every snapshot. -/
def Reopens (s : Store) : Prop :=
  ∀ clock, ∃ t, (migrateLegacySeeds clock).Succeeds s () t ∧ Immutable s t

theorem reopens_iff : s.Reopens ↔ s.Clean := by
  constructor
  · intro reopens row member
    by_contra marked
    have legacy : legacySeed row = true := by simpa using marked
    obtain ⟨queued, mark⟩ := Bool.and_eq_true _ _ |>.mp legacy
    obtain ⟨t, succeeds, since, isSince, kept⟩ := reopens (fun _ => 0)
    obtain ⟨rows, u, selects, migrates⟩ := Work.returns_bind (Work.returns_transaction succeeds.returns)
    obtain ⟨same, rfl⟩ := Work.returns_read selects
    cases same
    have stored := Tasks.get?_of_mem member
    obtain ⟨allocations, _, migrated⟩ := returns_migrateRows migrates
    have stays : (t.db.getTask row.id).isSome := by
      rw [migrated.stored, Db.getTask, stored]
      rfl
    obtain ⟨after, found⟩ := Option.isSome_iff_exists.mp stays
    obtain ⟨old, was, sameState, unmarked⟩ := unmarks_migrateRows migrates found
    rw [Db.getTask, stored] at was
    cases was
    have listed : row.id ∈ (u.db.tasks.rows.filter legacySeed).map TaskRecord.id :=
      List.mem_map_of_mem (List.mem_filter.mpr ⟨member, legacy⟩)
    have popped := unmarked (.inl listed) (of_decide_eq_true queued)
    obtain ⟨old, was, retains⟩ | ⟨_, _, _, committed⟩ := kept row.id after found
    · rw [Db.getTask, stored] at was
      cases was
      obtain custom | ⟨_, ended⟩ := retains.custom
      · rw [custom] at popped
        rw [popped] at mark
        cases mark
      · rw [sameState, of_decide_eq_true queued] at ended
        cases ended
    · rw [migrated.commits, List.append_cancel_left_eq] at isSince
      rw [← isSince] at committed
      simp at committed
  · intro clean clock
    refine ⟨s, Work.succeeds_transaction (Work.succeeds_bind (Work.succeeds_read rfl) ?_), .refl s⟩
    rw [clean.none_listed]
    exact Work.succeeds_pure

end Store

/-- A statement of the store, or a step of the service on the database the file holds that submits
nothing. -/
inductive FileAct where
  | store (act : StoreAct)
  | service (act : Act)

def FileStep (config : Config) (s : Store) : FileAct → Store → Prop
  | .store act, t => Store.Step s act t
  | .service act, t => act.drafts = [] ∧ ∃ before after : System, before.db = s.db ∧
      Step config before act after ∧ t = { s with db := after.db }

/-- The controller starts only on a clean file. -/
def StartsClean (s : Store) : FileAct → Prop
  | .store (.restart _ _) => s.Clean
  | _ => True

section Runs
open Store
variable {config : Config} {s t : Store} {act : FileAct} {acts : List FileAct}

theorem immutable_step (step : Guarded (FileStep config) StartsClean s act t) : Immutable s t := by
  obtain ⟨moved, clean⟩ := step
  cases act with
  | store act =>
    cases moved
    obtain ⟨faults, clock, rfl⟩ | deletes | edits := apply_cases s act
    · exact immutable_restart clean faults clock
    · have deleted := deleted_apply (s := s) deletes
      exact .tables deleted.commits (fun id row found => ⟨row, deleted.rows id row found, .refl row⟩)
    · exact immutable_edits edits
  | service act =>
    obtain ⟨silent, before, after, same, stepped, rfl⟩ := moved
    have updates : Updates before.db after.db := changes_step stepped (by simp [silent])
    refine .tables rfl (fun id row found => ?_)
    rw [← same]
    exact retains_updates updates found

/-- Whatever the store and the service do from any file on, with any statement failing: when the
controller starts on clean files only, every task keeps its snapshot. A file can be opened again
with its snapshots as they are exactly when it is clean. -/
theorem snapshots_immutable (run : Run (Guarded (FileStep config) StartsClean) s acts t) :
    Immutable s t ∧ (t.Reopens ↔ t.Clean) := by
  refine ⟨?_, reopens_iff⟩
  induction run with
  | nil s => exact .refl s
  | cons step _ ih => exact (immutable_step step).trans ih

/-- A task with some command and custom data, posted without a key. -/
def plainPost (command : List String) (custom : Object) : StoreAct :=
  .post none "agent" none
    ⟨some { TaskCreate.keyed [] with command, custom }.draft, "2026", fun _ => 5, "a", "2026"⟩

theorem snapshots_immutable_echo : ∃ s t old row,
    Run (FileStep (.plain .systemd)) .empty [.store (plainPost ["echo", "$\x7bseed\x7d"] [])] s ∧
    Run (Guarded (FileStep (.plain .systemd)) StartsClean) s [.store (.restart none (fun _ => 6))] t ∧
    s.db.getTask "a" = some old ∧ t.db.getTask "a" = some row ∧ Retains old row ∧ t.Reopens := by
  let s := Store.empty.apply (plainPost ["echo", "$\x7bseed\x7d"] [])
  let t := s.apply (.restart none (fun _ => 6))
  have evaluated : ((s.db.getTask "a").isSome && (t.db.getTask "a").isSome &&
      t.commits.length = s.commits.length && s.db.tasks.rows.all (fun row => !legacySeed row) &&
      t.db.tasks.rows.all (fun row => !legacySeed row)) = true := by decide +kernel
  simp only [Bool.and_eq_true, decide_eq_true_eq] at evaluated
  obtain ⟨⟨⟨⟨before, after⟩, same⟩, cleanBefore⟩, cleanAfter⟩ := evaluated
  obtain ⟨row, found⟩ := Option.isSome_iff_exists.mp after
  have clean : s.Clean := fun row member => by simpa using List.all_eq_true.mp cleanBefore row member
  have run : Run (Guarded (FileStep (.plain .systemd)) StartsClean) s
    [.store (.restart none (fun _ => 6))] t :=
    .single ⟨rfl, clean⟩
  obtain ⟨⟨since, isSince, kept⟩, reopens⟩ := snapshots_immutable run
  have nothing : since = [] := by
    have lengths := congrArg List.length isSince
    rw [List.length_append, same] at lengths
    exact List.length_eq_zero_iff.mp (by omega)
  subst nothing
  obtain ⟨old, stored, retains⟩ | ⟨_, _, _, committed⟩ := kept "a" row found
  · refine ⟨s, t, old, row, .single rfl, run, stored, found, retains,
      reopens.mpr (fun row member => ?_)⟩
    simpa using List.all_eq_true.mp cleanAfter row member
  · cases committed

/-- A queued task that carries the marker gets another command at the next start, and if its command
refers to anything else no start succeeds. -/
theorem marker_rewrites_snapshot :
    (∃ s t old row,
      Run (FileStep (.plain .systemd)) .empty
        [.store (plainPost ["echo", "$\x7bseed\x7d"] [("_runtime_seed", .str "unix")])] s ∧
      Run (FileStep (.plain .systemd)) s [.store (.restart none (fun _ => 6))] t ∧
      s.db.getTask "a" = some old ∧ t.db.getTask "a" = some row ∧ row.state = .queued ∧
      old.command = ["echo", "$\x7bseed\x7d"] ∧ row.command = ["echo", "6"]) ∧
    ∃ s, Run (FileStep (.plain .systemd)) .empty
        [.store (plainPost ["echo", "$\x7bhome\x7d"] [("_runtime_seed", .str "unix")])] s ∧
      ∀ t, ¬ (migrateLegacySeeds (fun _ => 6)).Succeeds s () t := by
  constructor
  · let s := Store.empty.apply (plainPost ["echo", "$\x7bseed\x7d"] [("_runtime_seed", .str "unix")])
    let t := s.apply (.restart none (fun _ => 6))
    have evaluated : ((s.db.getTask "a").any (fun old => old.command = ["echo", "$\x7bseed\x7d"]) &&
        (t.db.getTask "a").any (fun row => row.state = .queued && row.command = ["echo", "6"])) =
          true := by
      decide +kernel
    obtain ⟨before, after⟩ := Bool.and_eq_true _ _ |>.mp evaluated
    obtain ⟨old, stored, was⟩ := Option.any_eq_true _ _ |>.mp before
    obtain ⟨row, found, facts⟩ := Option.any_eq_true _ _ |>.mp after
    obtain ⟨queued, isNow⟩ := Bool.and_eq_true _ _ |>.mp facts
    exact ⟨s, t, old, row, .single rfl, .single rfl, stored, found, of_decide_eq_true queued,
      of_decide_eq_true was, of_decide_eq_true isNow⟩
  · let s := Store.empty.apply (plainPost ["echo", "$\x7bhome\x7d"] [("_runtime_seed", .str "unix")])
    have raises : (migrateLegacySeeds (fun _ => 6) none s).value.isNone = true := by decide +kernel
    refine ⟨s, .single rfl, fun t succeeds => ?_⟩
    rw [succeeds] at raises
    cases raises

end Runs
end LocalFlow
