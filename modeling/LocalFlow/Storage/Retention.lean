import LocalFlow.Storage.List

/-! Deletion of ended tasks: by age in one transaction, or one task at a time when their output
exceeds its budget. -/
namespace LocalFlow.Db

def terminalTaskIdsBefore (db : Db) (endedBefore : String) : List TaskId :=
  (db.tasks.rows.filter (fun row =>
    row.state.terminal && row.endedAt.any (fun ended => ended < endedBefore))).map TaskRecord.id

def terminalTaskIdsOldest (db : Db) : List TaskId :=
  ((db.tasks.rows.filter (fun row => row.state.terminal && row.endedAt.isSome)).insertionSort
    (fun a b => toLex (a.endedAt.getD "", a.id) ≤ toLex (b.endedAt.getD "", b.id))).map
    TaskRecord.id

/-- What the statements of `_delete_tasks` leave: dependent rows go first, then every batch left
without a task. -/
def withoutTasks (db : Db) (ids : List TaskId) : Db :=
  let batchTasks := db.batchTasks.filter (fun row => row.taskId ∉ ids)
  { db with
    acknowledgements := db.acknowledgements.filter (fun row => row.taskId ∉ ids)
    batchTasks
    events := db.events.delete (fun event => event.taskId.any (fun id => id ∈ ids))
    tasks := db.tasks.delete ids
    batches := db.batches.filter (fun batch =>
      batchTasks.any (fun row => row.batchId = batch.id)) }

/-- The variables one statement may bind, `SQLITE_MAX_VARIABLE_NUMBER` of SQLite since 3.32. -/
def variableLimit : Nat := 32766

/-- `_delete_tasks`, which binds a variable for each task; `none` is the `OperationalError` of too
many. -/
def deleteTasks (db : Db) (ids : List TaskId) : Option Db :=
  if ids.length ≤ variableLimit then some (db.withoutTasks ids) else none

/-- `purge_retention`, and the ids it returns; `none` when it raises and rolls back. -/
def purgeRetention (db : Db) (tasksBefore eventsBefore idempotencyBefore : String) :
    Option (Db × List TaskId) :=
  let ids := db.terminalTaskIdsBefore tasksBefore
  (if ids.isEmpty then some db else db.deleteTasks ids).map (fun purged =>
    ({ purged with
      events := purged.events.delete (fun event => event.recordedAt < eventsBefore)
      idempotency := purged.idempotency.filter (fun row => ¬ row.createdAt < idempotencyBefore) },
      ids))

/-- `purge_terminal_task`; `none` is the `KeyError` of a missing task. -/
def purgeTerminalTask (db : Db) (id : TaskId) : Option (Db × Bool) :=
  (db.getTask id).bind (fun row =>
    if row.state.terminal then (db.deleteTasks [id]).map (fun purged => (purged, true))
      else some (db, false))

def setLogSize (db : Db) (id : TaskId) (size : Nat) : Db :=
  { db with
    tasks := db.tasks.update id (fun row => { row with logSize := size }) (fun _ => rfl) }

variable {db : Db}

@[simp] theorem getTask_withoutTasks (ids : List TaskId) (other : TaskId) :
    (db.withoutTasks ids).getTask other = if other ∈ ids then none else db.getTask other :=
  Tasks.get?_delete ids

theorem deleteTasks_one (id : TaskId) : db.deleteTasks [id] = some (db.withoutTasks [id]) := rfl

/-- Eviction of a stored task never meets the bound of a statement. -/
theorem purgeTerminalTask_eq (id : TaskId) : db.purgeTerminalTask id = (db.getTask id).map (fun row =>
    if row.state.terminal then (db.withoutTasks [id], true) else (db, false)) := by
  unfold purgeTerminalTask
  cases db.getTask id with
  | none => rfl
  | some row =>
    rw [Option.bind_some, Option.map_some, deleteTasks_one]
    split <;> rfl

theorem purged_terminal {id : TaskId} {before : String}
    (member : id ∈ db.terminalTaskIdsBefore before) :
    ∃ row, db.getTask id = some row ∧ row.state.terminal = true := by
  obtain ⟨row, listed, rfl⟩ := List.mem_map.mp member
  obtain ⟨stored, ended⟩ := List.mem_filter.mp listed
  rw [Bool.and_eq_true] at ended
  exact ⟨row, Tasks.get?_of_mem stored, ended.1⟩

/-- What `purge_retention` leaves where its statements succeed. -/
def retained (db : Db) (tasksBefore eventsBefore idempotencyBefore : String) : Db :=
  let ids := db.terminalTaskIdsBefore tasksBefore
  let purged := if ids.isEmpty then db else db.withoutTasks ids
  { purged with
    events := purged.events.delete (fun event => event.recordedAt < eventsBefore)
    idempotency := purged.idempotency.filter (fun row => ¬ row.createdAt < idempotencyBefore) }

/-- Retention by age succeeds exactly while no more tasks have expired than one statement can name. -/
theorem purgeRetention_eq (tasksBefore eventsBefore idempotencyBefore : String) :
    db.purgeRetention tasksBefore eventsBefore idempotencyBefore =
      if (db.terminalTaskIdsBefore tasksBefore).length ≤ variableLimit then
        some (db.retained tasksBefore eventsBefore idempotencyBefore,
          db.terminalTaskIdsBefore tasksBefore)
      else none := by
  unfold purgeRetention retained deleteTasks
  cases ids : db.terminalTaskIdsBefore tasksBefore with
  | nil => rfl
  | cons id rest =>
    simp only [List.isEmpty_cons, Bool.false_eq_true, if_false]
    split <;> rfl

end LocalFlow.Db
