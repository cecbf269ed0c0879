import LocalFlow.Storage.Transition

/-! `create_task` and `create_batch`: one transaction each. The drafts are the materialized ones,
whose deferred values have already been resolved. -/
namespace LocalFlow

/-- The row both statements insert. -/
def TaskRecord.fresh (id : TaskId) (draft : TaskCreate) (createdAt : String)
    (status : TaskStatus) : TaskRecord where
  toTaskCreate := draft
  id
  state := .queued
  createdAt
  startedAt := none
  endedAt := none
  exitCode := none
  pid := none
  executorRef := none
  interruptStage := none
  blockedBy := []
  blockedKeys := []
  logSize := 0
  startedMonotonic := none
  elapsedSeconds := none
  status

namespace Db

/-- Insert one queued task with its event; `none` rolls the transaction back. -/
def insertTask (db : Db) (now createdAt : String) (id : TaskId) (draft : TaskCreate) :
    Option Db := do
  let status ← displayStatus draft.pluginSnapshot .queued
  let tasks ← db.tasks.insert (TaskRecord.fresh id draft createdAt status)
  some ({ db with tasks, journal := db.journal ++ [(id, TaskState.queued)] }.addEvent now (some id)
    (lifecycleKind .queued))

def createTask (db : Db) (now : String) (id : TaskId) (draft : TaskCreate) : Option Db :=
  db.insertTask now now id draft

def insertBatchTasks (now createdAt batchId : String) :
    List (TaskId × TaskCreate) → Nat → Db → Option Db
  | [], _, db => some db
  | (id, draft) :: rest, sequence, db => do
    let inserted ← db.insertTask now createdAt id draft
    insertBatchTasks now createdAt batchId rest (sequence + 1)
      { inserted with batchTasks := inserted.batchTasks ++ [⟨batchId, id, sequence⟩] }

inductive BatchOutcome where
  | created (taskIds : List TaskId)
  | replayed (response : BatchResponse)

def reservation (db : Db) (actor route key : String) : Option IdempotencyRecord :=
  db.idempotency.find? (fun row => row.actor = actor ∧ row.route = route ∧ row.key = key)

/-- `create_batch`; `none` is a rolled back or read-only failure. A replay reads every task of the
stored response, so it raises when one of them has been deleted. -/
def createBatch (db : Db) (now createdAt batchId template : String) (values : Object)
    (tasks : List (TaskId × TaskCreate))
    (idempotency : Option (String × String × String × BatchResponse)) :
    Option (Db × BatchOutcome) := do
  let existing := idempotency.bind (fun (actor, route, key, _) => db.reservation actor route key)
  match existing with
  | some row =>
    if row.response.taskIds.all (fun id => (db.getTask id).isSome) then
      some (db, .replayed row.response)
    else none
  | none =>
    if db.batches.any (fun batch => batch.id = batchId) then none
    else
      let configurationPath :=
        match Json.get? values "configuration_path" with
        | some (.str path) => some path
        | _ => none
      let opened := { db with
        batches := db.batches ++ [⟨batchId, template, values, createdAt, configurationPath⟩] }
      let filled ← insertBatchTasks now createdAt batchId tasks 0 opened
      let announced := filled.addEvent now none "batch.created"
      let reserved :=
        match idempotency with
        | none => announced
        | some (actor, route, key, response) => { announced with
            idempotency := announced.idempotency ++ [⟨actor, route, key, response, createdAt⟩] }
      some (reserved, .created (tasks.map Prod.fst))

variable {now createdAt : String} {id : TaskId} {draft : TaskCreate}

theorem insertTask_some {db next : Db} (h : db.insertTask now createdAt id draft = some next) :
    ∃ status tasks, db.tasks.insert (TaskRecord.fresh id draft createdAt status) = some tasks ∧
      displayStatus draft.pluginSnapshot .queued = some status ∧
      next = { db with tasks, journal := db.journal ++ [(id, TaskState.queued)] }.addEvent now (some id)
        (lifecycleKind .queued) := by
  simp only [insertTask, Option.bind_eq_bind, Option.bind_eq_some_iff, Option.some.injEq] at h
  obtain ⟨status, shown, tasks, inserted, rfl⟩ := h
  exact ⟨status, tasks, inserted, shown, rfl⟩

theorem getTask_insertTask {db next : Db} (h : db.insertTask now createdAt id draft = some next) :
    db.getTask id = none ∧ ∃ status, ∀ other, next.getTask other =
      if other = id then some (TaskRecord.fresh id draft createdAt status)
      else db.getTask other := by
  obtain ⟨status, tasks, inserted, _, rfl⟩ := insertTask_some h
  refine ⟨(Tasks.insert_some inserted).1, status, fun other => ?_⟩
  exact Tasks.get?_insert inserted

end Db
end LocalFlow
