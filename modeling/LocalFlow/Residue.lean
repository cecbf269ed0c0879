import LocalFlow.Eviction
import LocalFlow.Library.Run

/-! `maintain` operation by operation. Rows and log directories go in separate operations, and the
list of the deleted tasks is lost with the process. -/
namespace LocalFlow
open Faults Transition

/-- Where `maintain` stands between two operations. -/
inductive CleanupPoint where
  | clearing (todo : List TaskId)
  | sizing (id : TaskId) (todo : List TaskId)
  | measuring
  | evicting (total : Nat) (todo : List TaskId)
  | removing (id : TaskId) (size total : Nat) (todo : List TaskId)
  | unlinking

/-- The local variables of `maintain`. -/
structure CleanupPass where
  deleted : List TaskId
  point : CleanupPoint

/-- The tables, the directories under `logs` other than `service`, and the pass that is running. -/
structure Premises where
  db : Db
  logs : Logs
  pass : Option CleanupPass

inductive PremisesAct where
  | submit (now : String) (id : TaskId) (draft : TaskCreate)
  | submitBatch (now batchId template : String) (values : Object) (tasks : List (TaskId × TaskCreate))
      (idempotency : Option (String × String × String × BatchResponse))
  | transition (now : String) (id : TaskId) (expected : List TaskState) (state : TaskState)
      (fields : List Field)
      (override : Option TaskStatus)
  | write (id : TaskId) (directory : LogDirectory)
  | purge (cutoff : String)
  | clear (id : TaskId)
  | tear (id : TaskId) (directory : LogDirectory)
  | next
  | crash

namespace Premises

def initial : Premises := ⟨.empty, [], none⟩

/-- The deleted tasks whose directories the pass has still to remove. -/
def pending (w : Premises) : List TaskId :=
  match w.pass with
  | some ⟨_, .clearing todo⟩ | some ⟨_, .sizing _ todo⟩ => todo
  | some ⟨_, .removing id _ _ _⟩ => [id]
  | _ => []

variable (limit : Nat) (w : Premises)

def standing (deleted : List TaskId) (point : CleanupPoint) : Premises :=
  { w with pass := some ⟨deleted, point⟩ }

/-- The transaction a pass begins with; nothing follows when it raises. -/
def purge (cutoff : String) : Premises :=
  match w.db.purgeRetention cutoff cutoff cutoff with
  | none => w
  | some (db, deleted) => { w with db }.standing deleted (.clearing deleted)

/-- The row of the oldest ended task goes first, then its directory. -/
def evict (deleted : List TaskId) (total : Nat) : List TaskId → Premises
  | [] => w.standing deleted .unlinking
  | id :: todo =>
    if total ≤ limit then w.standing deleted .unlinking
    else match w.logs.lookup id with
      | none => w.standing deleted (.evicting total todo)
      | some directory =>
        match w.db.purgeTerminalTask id with
        | none => { w with pass := none }
        | some (_, false) => w.standing deleted (.evicting total todo)
        | some (purged, true) =>
          { w with db := purged }.standing deleted (.removing id directory.size total todo)

/-- The next operation of the pass. -/
def advance (pass : CleanupPass) : Option Premises :=
  match pass.point with
  | .clearing [] => some (w.standing pass.deleted .measuring)
  | .clearing _ => none
  | .sizing id todo =>
    some ({ w with db := w.db.setLogSize id 0 }.standing pass.deleted (.clearing todo))
  | .measuring => some (w.standing pass.deleted (.evicting w.logs.total w.db.terminalTaskIdsOldest))
  | .evicting total todo => some (w.evict limit pass.deleted total todo)
  | .removing id size total todo =>
    some ({ w with logs := w.logs.remove id }.standing (pass.deleted ++ [id])
      (.evicting (total - size) todo))
  | .unlinking => some { w with pass := none }

/-- The directory of one of the deleted tasks, in any order, as the tasks are iterated as a set. -/
def clear (pass : CleanupPass) (id : TaskId) : Option Premises :=
  match pass.point with
  | .clearing todo =>
    if id ∉ todo then none
    else if (w.logs.lookup id).isNone then some (w.standing pass.deleted (.clearing (todo.erase id)))
    else some ({ w with logs := w.logs.remove id }.standing pass.deleted (.sizing id (todo.erase id)))
  | _ => none

/-- A directory with another content. -/
def rewrite (id : TaskId) (directory : LogDirectory) : Premises :=
  { w with logs := (id, directory) :: w.logs.remove id }

/-- One step; `none` when the act is not possible. The store is not used by others while a pass runs. -/
def step (act : PremisesAct) : Option Premises :=
  match act, w.pass with
  | .submit now id draft, none =>
    if w.db.written id = [] then (w.db.createTask now id draft).map (fun db => { w with db }) else none
  | .submitBatch now batchId template values tasks idempotency, none =>
    if (tasks.map Prod.fst).Nodup ∧ ∀ id ∈ tasks.map Prod.fst, w.db.written id = [] then
      (w.db.createBatch now now batchId template values tasks idempotency).map
        (fun result => { w with db := result.1 })
    else none
  | .transition now id expected state fields override, none =>
    some { w with db := (w.db.transition now id expected state fields override).1 }
  | .write id directory, _ => if (w.db.getTask id).isSome then some (w.rewrite id directory) else none
  | .purge cutoff, none => some (w.purge cutoff)
  | .clear id, some pass => w.clear pass id
  -- `rmtree` removes file by file
  | .tear id directory, some _ =>
    if id ∈ w.pending ∧ (w.logs.lookup id).isSome then some (w.rewrite id directory) else none
  | .next, some pass => w.advance limit pass
  | .crash, _ => some { w with pass := none }
  | _, _ => none

end Premises

def PremisesStep (limit : Nat) (w : Premises) (act : PremisesAct) (v : Premises) : Prop :=
  w.step limit act = some v

/-- A crash leaves no directory of a task the pass has deleted. -/
def CrashesClean (w : Premises) (act : PremisesAct) : Prop :=
  match act with
  | .crash => ∀ id ∈ w.pending, w.logs.lookup id = none
  | _ => True

namespace Logs

theorem lookup_remove {logs : Logs} {id other : TaskId} :
    (logs.remove id).lookup other = if other = id then none else logs.lookup other := by
  rw [remove_eq]
  split
  · rename_i same
    exact lookup_gone (by simp [same])
  · rename_i apart
    exact lookup_without (by simpa using apart)

end Logs

section Store
variable {db next : Db} {now : String} {id other : TaskId}

theorem stored_iff : (db.getTask id).isSome ↔ id ∈ db.tasks.rows.map TaskRecord.id := by
  unfold Db.getTask Tasks.get?
  rw [List.find?_isSome, List.mem_map]
  simp

/-- The statements of the store that delete nothing: no row goes, and only tasks that were never stored
come. -/
structure Enlarges (db next : Db) : Prop where
  kept : ∀ id, (db.getTask id).isSome → (next.getTask id).isSome
  fresh : ∀ id, (next.getTask id).isSome → (db.getTask id).isSome ∨ db.written id = []
  history : ∀ id, db.written id <+: next.written id

theorem enlarges_createTask {draft : TaskCreate} (unused : db.written id = [])
    (created : db.createTask now id draft = some next) : Enlarges db next := by
  obtain ⟨_, status, rows⟩ := Db.getTask_insertTask created
  constructor
  · intro other held
    rw [rows]
    split
    · rfl
    · exact held
  · intro other held
    rw [rows] at held
    split at held
    · rename_i same
      exact .inr (same ▸ unused)
    · exact .inl held
  · intro other
    rw [Db.written_insertTask created]
    split
    · exact List.prefix_append _ _
    · exact List.prefix_rfl

theorem replayed_same {createdAt batchId template : String} {values : Object}
    {tasks : List (TaskId × TaskCreate)}
    {idempotency : Option (String × String × String × BatchResponse)} {response : BatchResponse}
    (replayed : db.createBatch now createdAt batchId template values tasks idempotency =
      some (next, .replayed response)) :
    next = db := by
  simp only [Db.createBatch, Option.bind_eq_bind] at replayed
  split at replayed
  · split at replayed <;> cases replayed
    rfl
  · split at replayed
    · cases replayed
    · obtain ⟨filled, _, done⟩ := Option.bind_eq_some_iff.mp replayed
      split at done <;> cases done

theorem enlarges_createBatch {batchId template : String} {values : Object}
    {tasks : List (TaskId × TaskCreate)}
    {idempotency : Option (String × String × String × BatchResponse)} {outcome : Db.BatchOutcome}
    (distinct : (tasks.map Prod.fst).Nodup) (unused : ∀ id ∈ tasks.map Prod.fst, db.written id = [])
    (created : db.createBatch now now batchId template values tasks idempotency =
      some (next, outcome)) :
    Enlarges db next := by
  have changes : Changes (fun _ => True) db next :=
    changes_createBatch (fun _ _ => trivial) unused distinct created
  have rows : ∃ more, (∀ id ∈ more, id ∈ tasks.map Prod.fst) ∧
      next.tasks.rows.map TaskRecord.id = db.tasks.rows.map TaskRecord.id ++ more := by
    cases outcome with
    | replayed response => exact ⟨[], by simp, by rw [replayed_same created, List.append_nil]⟩
    | created ids =>
      refine ⟨tasks.map Prod.fst, fun _ member => member, ?_⟩
      have entries := congrArg (List.map (fun entry : SortKey × TaskState => (ofLex entry.1).2))
        (createBatch_rows created).1
      rw [List.map_append, List.map_map, List.map_map, List.map_map] at entries
      exact entries
  obtain ⟨more, listed, rows⟩ := rows
  refine ⟨fun id held => ?_, fun id held => ?_, changes.written_grows⟩
  · rw [stored_iff, rows]
    exact List.mem_append_left _ (stored_iff.mp held)
  · rw [stored_iff, rows] at held
    obtain old | new := List.mem_append.mp held
    · exact .inl (stored_iff.mpr old)
    · exact .inr (unused id (listed id new))

theorem enlarges_transition (expected : List TaskState) (state : TaskState) (fields : List Field)
    (override : Option TaskStatus) :
    Enlarges db (db.transition now id expected state fields override).1 := by
  obtain ⟨same, _⟩ | ⟨same, _⟩ | ⟨row, status, _, _, same⟩ :=
    Db.transition_cases db now id expected state fields override
  · rw [same]
    exact ⟨fun _ held => held, fun _ held => .inl held, fun _ => List.prefix_rfl⟩
  · rw [same]
    exact ⟨fun _ held => held, fun _ held => .inl held, fun _ => List.prefix_rfl⟩
  · rw [same]
    refine ⟨fun other held => ?_, fun other held => .inl ?_, fun other => ?_⟩
    · rw [Db.getTask_move]
      split
      · rwa [Option.isSome_map]
      · exact held
    · rw [Db.getTask_move] at held
      split at held
      · rwa [Option.isSome_map] at held
      · exact held
    · rw [Db.written_move]
      split
      · exact List.prefix_append _ _
      · exact List.prefix_rfl

end Store

namespace Premises
variable {limit : Nat} {w v : Premises} {id other : TaskId} {directory : LogDirectory}

/-- Every directory belongs to a stored task, or to one the pass has just deleted. -/
def Owned (w : Premises) : Prop :=
  ∀ id, (w.logs.lookup id).isSome → (w.db.getTask id).isSome ∨ id ∈ w.pending

theorem lookup_rewrite : (w.rewrite id directory).logs.lookup other =
    if other = id then some directory else w.logs.lookup other := by
  unfold rewrite
  rw [List.lookup_cons, Logs.lookup_remove]
  by_cases same : other = id
  · simp [same]
  · have apart : (other == id) = false := by simpa using same
    simp [apart, same]

/-- What one step does to the row and the directory of one task. -/
inductive Fate (w : Premises) (act : PremisesAct) (v : Premises) (id : TaskId) : Prop where
  | kept (logs : (v.logs.lookup id).isSome = (w.logs.lookup id).isSome)
      (row : (w.db.getTask id).isSome → (v.db.getTask id).isSome)
      (fresh : (v.db.getTask id).isSome → (w.db.getTask id).isSome ∨ w.db.written id = [])
      (pending : id ∈ v.pending ↔ id ∈ w.pending)
  | written (stored : (w.db.getTask id).isSome) (row : (v.db.getTask id).isSome)
  | deleted (stored : (w.db.getTask id).isSome) (pending : id ∈ v.pending)
  | cleared (was : id ∈ w.pending) (gone : v.logs.lookup id = none)
  | lost (crashed : act = .crash) (was : id ∈ w.pending) (logs : v.logs = w.logs)

namespace Fate
variable {act : PremisesAct}

theorem enlarged {db : Db} (enlarges : Enlarges w.db db) : Fate w act { w with db } id :=
  .kept rfl (enlarges.kept id) (enlarges.fresh id) .rfl

/-- Another point of the pass, with the same directories to remove. -/
theorem moved {deleted : List TaskId} {point : CleanupPoint}
    (pending : id ∈ (w.standing deleted point).pending ↔ id ∈ w.pending) :
    Fate w act (w.standing deleted point) id :=
  .kept rfl (fun held => held) .inl pending

end Fate

theorem fate_write (stored : (w.db.getTask other).isSome) {act : PremisesAct} :
    Fate w act (w.rewrite other directory) id := by
  by_cases same : id = other
  · exact .written (same ▸ stored) (same ▸ stored)
  · refine .kept ?_ (fun held => held) .inl .rfl
    rw [lookup_rewrite, if_neg same]

theorem fate_tear (held : (w.logs.lookup other).isSome) {act : PremisesAct} :
    Fate w act (w.rewrite other directory) id := by
  refine .kept ?_ (fun held => held) .inl .rfl
  rw [lookup_rewrite]
  split
  · rename_i same
    rw [same, held]
    rfl
  · rfl

theorem purge_few {cutoff : String}
    (few : (w.db.terminalTaskIdsBefore cutoff).length ≤ Db.variableLimit) :
    w.purge cutoff = { w with db := w.db.retained cutoff cutoff cutoff }.standing
    (w.db.terminalTaskIdsBefore cutoff)
      (.clearing (w.db.terminalTaskIdsBefore cutoff)) := by
  unfold purge
  rw [Db.purgeRetention_eq, if_pos few]

theorem purge_many {cutoff : String}
    (many : ¬ (w.db.terminalTaskIdsBefore cutoff).length ≤ Db.variableLimit) :
    w.purge cutoff = w := by
  unfold purge
  rw [Db.purgeRetention_eq, if_neg many]

theorem fate_purge (cutoff : String) {act : PremisesAct} (idle : w.pass = none) :
    Fate w act (w.purge cutoff) id := by
  by_cases few : (w.db.terminalTaskIdsBefore cutoff).length ≤ Db.variableLimit
  swap
  · rw [purge_many few]
    exact .kept rfl (fun held => held) .inl .rfl
  rw [purge_few few]
  have rows := (deletes_retained w.db cutoff cutoff cutoff).getTask id
  by_cases expired : id ∈ w.db.terminalTaskIdsBefore cutoff
  · obtain ⟨row, found, _⟩ := Db.purged_terminal expired
    exact .deleted (by rw [found]; rfl) expired
  · rw [if_neg expired] at rows
    refine .kept rfl (fun held => ?_) (fun held => .inl ?_)
      ⟨fun member => absurd member expired, fun member => ?_⟩
    · change ((w.db.retained cutoff cutoff cutoff).getTask id).isSome
      rwa [rows]
    · change ((w.db.retained cutoff cutoff cutoff).getTask id).isSome at held
      rwa [rows] at held
    · unfold pending at member
      rw [idle] at member
      cases member

theorem fate_clear {pass : CleanupPass} {act : PremisesAct} (running : w.pass = some pass)
    (cleared : w.clear pass other = some v) : Fate w act v id := by
  obtain ⟨deleted, point⟩ := pass
  unfold clear at cleared
  split at cleared
  · rename_i todo isPoint
    cases isPoint
    have was : w.pending = todo := by
      unfold pending
      rw [running]
    split at cleared
    · cases cleared
    · rename_i listed
      rw [Decidable.not_not] at listed
      split at cleared
      · rename_i missing
        cases cleared
        by_cases same : id = other
        · exact .cleared (by rw [was, same]; exact listed)
            (by rw [same]; exact Option.isNone_iff_eq_none.mp missing)
        · refine .moved ?_
          rw [was]
          exact List.mem_erase_of_ne same
      · cases cleared
        by_cases same : id = other
        · refine .cleared (by rw [was, same]; exact listed) ?_
          change (w.logs.remove other).lookup id = none
          rw [Logs.lookup_remove, if_pos same]
        · refine .kept ?_ (fun held => held) .inl ?_
          · change ((w.logs.remove other).lookup id).isSome = _
            rw [Logs.lookup_remove, if_neg same]
          · rw [was]
            exact List.mem_erase_of_ne same
  · cases cleared

theorem fate_evict {deleted todo : List TaskId} {total : Nat} {act : PremisesAct}
    (clean : w.pending = []) :
    Fate w act (w.evict limit deleted total todo) id := by
  have stays : ∀ {point : CleanupPoint}, (w.standing deleted point).pending = [] →
    Fate w act (w.standing deleted point) id :=
    fun none_left => .moved (by rw [none_left, clean])
  unfold evict
  split
  · exact stays rfl
  · rename_i first todo
    split
    · exact stays rfl
    · split
      · exact stays rfl
      · rename_i directory _
        split
        · exact .kept rfl (fun held => held) .inl (by rw [clean]; rfl)
        · exact stays rfl
        · rename_i purged done
          obtain ⟨row, found, _, rfl⟩ := purgeTerminalTask_true done
          by_cases same : id = first
          · refine .deleted (by rw [same, found]; rfl) ?_
            rw [same]
            exact List.mem_singleton_self _
          · have rows : (w.db.withoutTasks [first]).getTask id = w.db.getTask id := by
              rw [Db.getTask_withoutTasks, if_neg (by simpa using same)]
            refine .kept rfl (fun held => ?_) (fun held => .inl ?_) ?_
            · change ((w.db.withoutTasks [first]).getTask id).isSome
              rwa [rows]
            · change ((w.db.withoutTasks [first]).getTask id).isSome at held
              rwa [rows] at held
            · rw [clean]
              exact iff_of_false (by simpa [pending, standing] using same) List.not_mem_nil

theorem fate_advance {pass : CleanupPass} {act : PremisesAct} (running : w.pass = some pass)
    (advanced : w.advance limit pass = some v) : Fate w act v id := by
  obtain ⟨deleted, point⟩ := pass
  have was : w.pending = ({ w with pass := some ⟨deleted, point⟩ } : Premises).pending := by
    unfold pending
    rw [running]
  unfold advance at advanced
  cases point with
  | clearing todo =>
    cases todo with
    | cons => cases advanced
    | nil =>
      cases advanced
      exact .moved (by rw [was]; rfl)
  | sizing first todo =>
    cases advanced
    have rows : ∀ other,
      ((w.db.setLogSize first 0).getTask other).isSome = (w.db.getTask other).isSome := by
      intro other
      have sized : (w.db.setLogSize first 0).getTask other = if other = first then
          (w.db.getTask other).map (fun row => { row with logSize := 0 }) else w.db.getTask other :=
        Tasks.get?_update (fun row => { row with logSize := 0 }) (fun _ => rfl)
      rw [sized]
      split
      · exact Option.isSome_map
      · rfl
    refine .kept rfl (fun held => ?_) (fun held => .inl ?_) (by rw [was]; rfl)
    · exact (rows id).trans held
    · exact (rows id).symm.trans held
  | measuring =>
    cases advanced
    exact .moved (by rw [was]; rfl)
  | evicting total todo =>
    cases advanced
    exact fate_evict was
  | removing first size total todo =>
    cases advanced
    by_cases same : id = first
    · refine .cleared (by rw [was, same]; exact List.mem_singleton_self _) ?_
      change (w.logs.remove first).lookup id = none
      rw [Logs.lookup_remove, if_pos same]
    · refine .kept ?_ (fun held => held) .inl ?_
      · change ((w.logs.remove first).lookup id).isSome = _
        rw [Logs.lookup_remove, if_neg same]
      · rw [was]
        exact iff_of_false List.not_mem_nil (by simpa [pending] using same)
  | unlinking =>
    cases advanced
    exact .kept rfl (fun held => held) .inl (by rw [was]; rfl)

theorem step_fate {act : PremisesAct} (stepped : w.step limit act = some v) (id : TaskId) :
    Fate w act v id := by
  unfold step at stepped
  split at stepped
  · split at stepped
    · rename_i unused
      obtain ⟨db, created, rfl⟩ := Option.map_eq_some_iff.mp stepped
      exact .enlarged (enlarges_createTask unused created)
    · cases stepped
  · split at stepped
    · rename_i unused
      obtain ⟨⟨db, outcome⟩, created, rfl⟩ := Option.map_eq_some_iff.mp stepped
      exact .enlarged (enlarges_createBatch unused.1 unused.2 created)
    · cases stepped
  · cases stepped
    exact .enlarged (enlarges_transition _ _ _ _)
  · split at stepped
    · rename_i stored
      cases stepped
      exact fate_write stored
    · cases stepped
  · rename_i idle
    cases stepped
    exact fate_purge _ idle
  · rename_i running
    exact fate_clear running stepped
  · split at stepped
    · rename_i torn
      cases stepped
      exact fate_tear torn.2
    · cases stepped
  · rename_i running
    exact fate_advance running stepped
  · cases stepped
    by_cases was : id ∈ w.pending
    · exact .lost rfl was rfl
    · exact .kept rfl (fun held => held) .inl (iff_of_false List.not_mem_nil was)
  · cases stepped

/-- The step of a run in which a crash leaves nothing behind. -/
theorem Owned.step {act : PremisesAct} (owned : w.Owned) (clean : CrashesClean w act)
    (stepped : w.step limit act = some v) : v.Owned := by
  intro id held
  cases step_fate stepped id with
  | kept logs row _ pending =>
    obtain stored | member := owned id (logs ▸ held)
    · exact .inl (row stored)
    · exact .inr (pending.mpr member)
  | written _ row => exact .inl row
  | deleted _ pending => exact .inr pending
  | cleared _ gone =>
    rw [gone] at held
    cases held
  | lost crashed was logs =>
    subst crashed
    rw [logs, clean id was] at held
    cases held

/-- In every run in which no crash falls between the deletion of a task and the removal of its
directory: whenever no pass runs, and so after every completed pass, each directory belongs to a
stored task. -/
theorem no_orphan_logs {acts : List PremisesAct}
    (run : Run (Guarded (PremisesStep limit) CrashesClean) initial acts w)
    (idle : w.pass = none) (id : TaskId) (held : (w.logs.lookup id).isSome) :
    (w.db.getTask id).isSome := by
  have owned : w.Owned := by
    refine run.invariant (fun owned stepped => owned.step stepped.2 stepped.1) ?_
    intro id held
    cases held
  obtain stored | pending := owned id held
  · exact stored
  · unfold Premises.pending at pending
    rw [idle] at pending
    cases pending

theorem evict_history {deleted todo : List TaskId} {total : Nat} :
    (w.evict limit deleted total todo).db.written id = w.db.written id := by
  unfold evict
  split
  · rfl
  · split
    · rfl
    · split
      · rfl
      · split
        · rfl
        · rfl
        · rename_i done
          obtain ⟨_, _, _, rfl⟩ := purgeTerminalTask_true done
          rfl

/-- The history of states only grows. -/
theorem step_history {act : PremisesAct} (stepped : w.step limit act = some v) (id : TaskId) :
    w.db.written id <+: v.db.written id := by
  unfold step at stepped
  split at stepped
  · split at stepped
    · rename_i unused
      obtain ⟨db, created, rfl⟩ := Option.map_eq_some_iff.mp stepped
      exact (enlarges_createTask unused created).history id
    · cases stepped
  · split at stepped
    · rename_i unused
      obtain ⟨⟨db, outcome⟩, created, rfl⟩ := Option.map_eq_some_iff.mp stepped
      exact (enlarges_createBatch unused.1 unused.2 created).history id
    · cases stepped
  · cases stepped
    exact (enlarges_transition _ _ _ _).history id
  · split at stepped <;> cases stepped
    exact List.prefix_rfl
  · cases stepped
    rename_i cutoff _
    by_cases few : (w.db.terminalTaskIdsBefore cutoff).length ≤ Db.variableLimit
    · rw [purge_few few]
      change _ <+: (w.db.retained _ _ _).written id
      unfold Db.retained
      dsimp only
      split <;> exact List.prefix_rfl
    · rw [purge_many few]
  · rename_i pass _
    unfold clear at stepped
    split at stepped
    · split at stepped
      · cases stepped
      · split at stepped <;> cases stepped <;> exact List.prefix_rfl
    · cases stepped
  · split at stepped <;> cases stepped
    exact List.prefix_rfl
  · rename_i pass _
    unfold advance at stepped
    split at stepped <;> cases stepped
    all_goals first
      | exact List.prefix_rfl
      | exact (@evict_history _ _ id _ _ _).symm ▸ List.prefix_rfl
  · cases stepped
    exact List.prefix_rfl
  · cases stepped

/-- The check that goes with `CrashesClean`. -/
def crashesClean (w : Premises) : PremisesAct → Bool
  | .crash => w.pending.all (fun id => (w.logs.lookup id).isNone)
  | _ => true

theorem crashesClean_sound (w : Premises) (act : PremisesAct) (passed : w.crashesClean act = true) :
    CrashesClean w act := by
  cases act with
  | crash =>
    intro id member
    exact Option.isNone_iff_eq_none.mp (List.all_eq_true.mp passed id member)
  | _ => trivial

/-- One ended task and one queued task, each with its log. -/
def twoTasks : List PremisesAct :=
  [.submit "2026" "a" (.keyed []), .write "a" ⟨some [1], 0⟩, .submit "2026" "b" (.keyed []),
    .write "b" ⟨some [2], 0⟩,
    .transition "2026" "a" [.queued] .cancelled [.endedAt "2026"] none]

theorem no_orphan_logs_kept : ∃ w, Run (Guarded (PremisesStep 10) CrashesClean) initial
    (twoTasks ++ [.purge "2027", .clear "a", .crash, .purge "2027", .next, .next, .next, .next]) w ∧
    w.pass = none ∧ (w.logs.lookup "b").isSome ∧ (w.db.getTask "b").isSome := by
  have evaluated : (replay (step 10) crashesClean initial
      (twoTasks ++ [.purge "2027", .clear "a", .crash, .purge "2027", .next, .next, .next, .next])).any
      (fun w => w.pass.isNone && (w.logs.lookup "b").isSome) = true := by decide +kernel
  obtain ⟨w, ran, both⟩ := Option.any_eq_true _ _ |>.mp evaluated
  obtain ⟨idle, held⟩ := Bool.and_eq_true _ _ |>.mp both
  have run := replay_run crashesClean_sound ran
  have rested := Option.isNone_iff_eq_none.mp idle
  exact ⟨w, run, rested, held, no_orphan_logs run rested "b" held⟩

/-- The controller dies after the deletion of the row; the next pass completes and leaves the
directory. -/
theorem crash_leaves_log : ∃ w, Run (PremisesStep 10) initial
    (twoTasks ++ [.purge "2027", .crash, .purge "2027", .next, .next, .next, .next]) w ∧
    w.pass = none ∧ (w.logs.lookup "a").isSome ∧ ¬ (w.db.getTask "a").isSome := by
  have evaluated : (replay (step 10) (fun _ _ => true) initial
      (twoTasks ++ [.purge "2027", .crash, .purge "2027", .next, .next, .next, .next])).any
      (fun w => w.pass.isNone && ((w.logs.lookup "a").isSome && (w.db.getTask "a").isNone)) =
        true := by decide +kernel
  obtain ⟨w, ran, both⟩ := Option.any_eq_true _ _ |>.mp evaluated
  obtain ⟨idle, both⟩ := Bool.and_eq_true _ _ |>.mp both
  obtain ⟨held, gone⟩ := Bool.and_eq_true _ _ |>.mp both
  have run := replay_run (fun _ _ _ => trivial) ran
  refine ⟨w, run.unguarded, Option.isNone_iff_eq_none.mp idle, held, ?_⟩
  rw [Option.isNone_iff_eq_none.mp gone]
  exact Bool.false_ne_true

/-- A directory left without its row stays: no later pass finds it, whatever else happens. -/
theorem orphan_stays {acts : List PremisesAct} (run : Run (PremisesStep limit) w acts v)
    (held : (w.logs.lookup id).isSome) (orphan : w.db.getTask id = none) (left : id ∉ w.pending)
    (used : w.db.written id ≠ []) : (v.logs.lookup id).isSome ∧ v.db.getTask id = none := by
  have stays : (v.logs.lookup id).isSome ∧ v.db.getTask id = none ∧ id ∉ v.pending ∧
    v.db.written id ≠ [] := by
    refine run.invariant (P := fun w => (w.logs.lookup id).isSome ∧ w.db.getTask id = none ∧
      id ∉ w.pending ∧
      w.db.written id ≠ []) ?_ ⟨held, orphan, left, used⟩
    rintro w act v ⟨held, orphan, left, used⟩ stepped
    have later : v.db.written id ≠ [] := fun none_now =>
      used (List.prefix_nil.mp (none_now ▸ step_history stepped id))
    have unstored : ¬ (w.db.getTask id).isSome := by simp [orphan]
    cases step_fate stepped id with
    | kept logs _ fresh pending =>
      refine ⟨logs ▸ held, ?_, mt pending.mp left, later⟩
      by_contra some_row
      obtain old | new := fresh (Option.isSome_iff_ne_none.mpr some_row)
      · exact unstored old
      · exact used new
    | written stored => exact absurd stored unstored
    | deleted stored => exact absurd stored unstored
    | cleared was => exact absurd was left
    | lost _ was => exact absurd was left
  exact ⟨stays.1, stays.2.1⟩

section Whole
variable {turn : Turn Upkeep} {deleted : List TaskId}

/-- The loop over the deleted tasks. -/
theorem clears_run (ids : List TaskId) (safe : turn.Safe) : ∃ acts, Run (PremisesStep limit)
    ⟨turn.state.db, turn.state.logs, some ⟨deleted, .clearing ids⟩⟩ acts
    ⟨(ids.foldl removeLog turn).state.db, (ids.foldl removeLog turn).state.logs,
      some ⟨deleted, .clearing []⟩⟩ := by
  induction ids generalizing turn with
  | nil => exact ⟨[], .nil _⟩
  | cons id rest ih =>
    obtain ⟨acts, run⟩ := ih (safe_removeLog safe id)
    cases missing : (turn.state.logs.lookup id).isNone with
    | true =>
      have same : removeLog turn id = turn := by rw [removeLog, if_pos missing]
      refine ⟨.clear id :: acts, .cons ?_ run⟩
      rw [same]
      simp [PremisesStep, step, clear, missing, standing]
    | false =>
      have state : (removeLog turn id).state.db = turn.state.db.setLogSize id 0 ∧
          (removeLog turn id).state.logs = turn.state.logs.remove id := by
        rw [removeLog, if_neg (by simp [missing]), safe.call.1.call.2, safe.call.2]
        exact ⟨rfl, rfl⟩
      refine ⟨.clear id :: .next :: acts, .cons (t := ⟨turn.state.db, turn.state.logs.remove id,
        some ⟨deleted, .sizing id rest⟩⟩) ?_ (.cons ?_ run)⟩
      · simp [PremisesStep, step, clear, missing, standing]
      · rw [state.1, state.2]
        rfl

theorem shrinkLogs_idle (ids : List TaskId) (fits : turn.state.total ≤ limit) :
    ids.foldl (shrinkLogs limit) turn = turn := by
  induction ids with
  | nil => rfl
  | cons id rest ih => rw [List.foldl_cons, shrinkLogs, if_pos fits, ih]

/-- The loop over the ended tasks. -/
theorem evicts_run (ids : List TaskId) (safe : turn.Safe) (distinct : ids.Nodup)
    (stored : ∀ id ∈ ids, (turn.state.db.getTask id).isSome) : ∃ acts deleted', Run (PremisesStep limit)
    ⟨turn.state.db, turn.state.logs, some ⟨deleted, .evicting turn.state.total ids⟩⟩ acts
    ⟨(ids.foldl (shrinkLogs limit) turn).state.db, (ids.foldl (shrinkLogs limit) turn).state.logs,
      some ⟨deleted', .unlinking⟩⟩ := by
  induction ids generalizing turn deleted with
  | nil => exact ⟨[.next], deleted, .single rfl⟩
  | cons id rest ih =>
    rw [List.nodup_cons] at distinct
    have later : ∀ other ∈ rest, (turn.state.db.getTask other).isSome :=
      fun other member => stored other (List.mem_cons_of_mem _ member)
    by_cases fits : turn.state.total ≤ limit
    · refine ⟨[.next], deleted, .single ?_⟩
      rw [shrinkLogs_idle _ fits]
      simp [PremisesStep, step, advance, evict, fits, standing]
    · rw [List.foldl_cons]
      cases found : turn.state.logs.lookup id with
      | none =>
        have same : shrinkLogs limit turn id = turn := by
          rw [shrinkLogs, if_neg fits, found]
        obtain ⟨acts, deleted', run⟩ := @ih _ deleted safe distinct.2 later
        rw [same]
        refine ⟨.next :: acts, deleted', .cons ?_ run⟩
        simp [PremisesStep, step, advance, evict, fits, found, standing]
      | some directory =>
        obtain ⟨row, isRow⟩ := Option.isSome_iff_exists.mp (stored id List.mem_cons_self)
        cases ended : row.state.terminal with
        | false =>
          have purged : turn.state.db.purgeTerminalTask id = some (turn.state.db, false) := by
            rw [Db.purgeTerminalTask_eq, isRow, Option.map_some, if_neg (by simp [ended])]
          have state : shrinkLogs limit turn id = turn.call (fun u => u) := by
            rw [shrinkLogs, if_neg fits, found]
            dsimp only
            rw [purged]
          obtain ⟨acts, deleted', run⟩ := @ih (turn.call (fun u => u)) deleted safe.call.1 distinct.2
            (by rw [Turn.call_same]; exact later)
          rw [state]
          refine ⟨.next :: acts, deleted', .cons ?_ run⟩
          simp [PremisesStep, step, advance, evict, fits, found, purged, standing]
        | true =>
          have purged : turn.state.db.purgeTerminalTask id =
            some (turn.state.db.withoutTasks [id], true) := by
            rw [Db.purgeTerminalTask_eq, isRow, Option.map_some, if_pos ended]
          generalize isLast : shrinkLogs limit turn id = last
          have evicted : last.Safe ∧ last.state = { turn.state with
              db := turn.state.db.withoutTasks [id]
              logs := turn.state.logs.remove id
              total := turn.state.total - directory.size
              deleted := turn.state.deleted ++ [id] } := by
            rw [← isLast, shrinkLogs, if_neg fits, found]
            dsimp only
            rw [purged]
            refine ⟨safe.call.1.call.1.set.1, ?_⟩
            rw [safe.call.1.call.1.set.2, safe.call.1.call.2, safe.call.2]
          obtain ⟨fine, state⟩ := evicted
          obtain ⟨acts, deleted', run⟩ :=
            @ih _ (deleted ++ [id]) fine distinct.2 (fun other member => by
            have apart : other ≠ id := fun same => distinct.1 (same ▸ member)
            rw [state, Db.getTask_withoutTasks, if_neg (by simpa using apart)]
            exact later other member)
          refine ⟨.next :: .next ::
            acts, deleted', .cons (t := ⟨turn.state.db.withoutTasks [id], turn.state.logs,
            some ⟨deleted, .removing id directory.size turn.state.total rest⟩⟩) ?_ (.cons ?_ run)⟩
          · simp [PremisesStep, step, advance, evict, fits, found, purged, standing]
          · rw [state]
            rfl

/-- The operations in a row, with no crash between them, are `maintain`. -/
theorem runs_maintain (db : Db) (logs : Logs) (cutoff : String) (monotonic lastCleanup : Seconds)
    (few : (db.terminalTaskIdsBefore cutoff).length ≤ Db.variableLimit) :
    ∃ acts done, Run (PremisesStep limit) ⟨db, logs, none⟩ (.purge cutoff :: acts)
      ⟨done.db, done.logs, none⟩ ∧
      done = (maintain cutoff limit monotonic ⟨{ db, logs, lastCleanup }, none, false⟩).state := by
  refine Exists.imp (fun acts runs => ⟨_, runs, rfl⟩) ?_
  unfold maintain
  dsimp only
  rw [purgeExpired_few few]
  generalize isPurged : (⟨{ db, logs, lastCleanup }, none, false⟩ : Turn Upkeep).call _ = purged
  have start : (⟨{ db, logs, lastCleanup }, none, false⟩ : Turn Upkeep).Safe := ⟨rfl, rfl⟩
  have fine : purged.Safe := isPurged ▸ start.call.1
  have state : purged.state = {
      db := db.retained cutoff cutoff cutoff
      logs
      deleted := db.terminalTaskIdsBefore cutoff
      lastCleanup } := isPurged ▸ start.call.2
  obtain ⟨clears, cleared⟩ := @clears_run limit _ purged.state.deleted purged.state.deleted fine.call.1
  have cleaned := safe_foldl (fun turn id safe => safe_removeLog safe id) purged.state.deleted
    (purged.call (fun u => u)) fine.call.1
  generalize purged.state.deleted.foldl removeLog (purged.call (fun u => u)) = tidy at cleared cleaned
  have counts := @Turn.Safe.call _ tidy (fun u => { u with total := u.logs.total }) cleaned
  have counted := @Turn.Safe.call _ _ (fun u => u) counts.1
  generalize (tidy.call (fun u => { u with total := u.logs.total })).call (fun u => u) =
    measured at counted
  have isMeasured := counted.2.trans counts.2
  obtain ⟨distinct, stored⟩ := oldest_stored measured.state.db
  obtain ⟨evicts, deleted', evicted⟩ := @evicts_run limit _ purged.state.deleted
    measured.state.db.terminalTaskIdsOldest counted.1 distinct stored
  have shrunk := @safe_shrinkLogs limit _ measured counted.1 distinct stored
  generalize measured.state.db.terminalTaskIdsOldest.foldl (shrinkLogs limit) measured =
    last at evicted shrunk
  obtain ⟨done, isDb, isLogs⟩ := unlinks_state last.state.deleted shrunk
  rw [done.set.2]
  dsimp only
  rw [isDb, isLogs]
  rw [Turn.call_same, state] at cleared
  rw [isMeasured, state] at evicted
  dsimp only at cleared evicted
  have measures : Run (PremisesStep limit)
      ⟨tidy.state.db, tidy.state.logs, some ⟨db.terminalTaskIdsBefore cutoff, .clearing []⟩⟩
        [.next, .next]
      ⟨tidy.state.db, tidy.state.logs, some ⟨db.terminalTaskIdsBefore cutoff,
        .evicting tidy.state.logs.total tidy.state.db.terminalTaskIdsOldest⟩⟩ := by
    refine .cons (t := ⟨tidy.state.db, tidy.state.logs,
      some ⟨db.terminalTaskIdsBefore cutoff, .measuring⟩⟩) ?_ (.single ?_)
    · rfl
    · rfl
  have ends : Run (PremisesStep limit)
    ⟨last.state.db, last.state.logs, some ⟨deleted', .unlinking⟩⟩ [.next]
      ⟨last.state.db, last.state.logs, none⟩ := by
    refine .single ?_
    rfl
  have begins : PremisesStep limit ⟨db, logs, none⟩ (.purge cutoff)
      ⟨db.retained cutoff cutoff cutoff, logs, some ⟨db.terminalTaskIdsBefore cutoff,
        .clearing (db.terminalTaskIdsBefore cutoff)⟩⟩ := congrArg some (purge_few few)
  exact ⟨_, .cons begins (cleared.append (measures.append (evicted.append ends)))⟩

end Whole

end Premises
end LocalFlow
