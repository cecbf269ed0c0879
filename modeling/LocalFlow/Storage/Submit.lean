import LocalFlow.Storage.Drafts

/-! `create_task`, `create_batch` and the migration of legacy seeds, statement by statement. Any
statement may fail; a failure before the end of the transaction rolls it back. -/
namespace LocalFlow
open Faults

namespace Store

/-- A statement on the tables. -/
def onDb (f : Db → Option Db) : Work Store Unit :=
  Work.write (fun store : Store => (f store.db).map (fun db => { store with db }))

/-- `INSERT INTO tasks`, noted in the history. -/
def insertRow (row : TaskRecord) (commit : StoreCommit) : Work Store Unit :=
  Work.write (fun store : Store => (store.db.tasks.insert row).map (fun tasks => { store with
    db := { store.db with tasks, journal := store.db.journal ++ [(row.id, TaskState.queued)] }
    commits := store.commits ++ [commit] }))

/-- The statements both submissions begin a task with. `request` names the actor and the key of
the request it serves. -/
def insertTask (createdAt : String) (clock : Nat → Int) (id : TaskId) (draft : TaskDraft)
    (request : Option (String × String)) : Work Store Unit := do
  let (task, allocated) ← materializeDraft clock draft
  let status ← Work.given (displayStatus task.pluginSnapshot .queued)
  insertRow (TaskRecord.fresh id task createdAt status) (.task id draft allocated request)

/-- The transaction of `create_task`. -/
def taskTransaction (now : String) (clock : Nat → Int) (id : TaskId) (draft : TaskDraft)
    (request : Option (String × String)) : Work Store Unit := do
  insertTask now clock id draft request
  onDb (fun db => some (db.addEvent now (some id) (lifecycleKind .queued)))

/-- `create_task`. -/
def createTask (now : String) (clock : Nat → Int) (id : TaskId) (draft : TaskDraft)
    (request : Option (String × String)) : Work Store TaskRecord := do
  Work.transaction (taskTransaction now clock id draft request)
  Work.read (fun store : Store => store.db.getTask id)

/-- The loop of `create_batch`. -/
def insertBatchTasks (now createdAt batchId : String) (clock : Nat → Nat → Int) :
    List (TaskId × TaskDraft) → Nat → Work Store Unit
  | [], _ => pure ()
  | (id, draft) :: rest, sequence => do
    insertTask createdAt (clock sequence) id draft none
    onDb (fun db => some { db with batchTasks := db.batchTasks ++ [⟨batchId, id, sequence⟩] })
    onDb (fun db => some (db.addEvent now (some id) (lifecycleKind .queued)))
    insertBatchTasks now createdAt batchId clock rest (sequence + 1)

/-- `INSERT INTO batches`; `none` when the id is taken. -/
def insertBatch (batch : BatchRecord) (db : Db) : Option Db :=
  if db.batches.any (fun other => other.id = batch.id) then none
  else some { db with batches := db.batches ++ [batch] }

/-- `request_values.get("configuration_path")` when it is a string. -/
def configurationPath (values : Object) : Option String :=
  match Json.get? values "configuration_path" with
  | some (.str path) => some path
  | _ => none

/-- One call of `create_batch`. -/
structure BatchCall where
  now : String
  createdAt : String
  batchId : String
  template : String
  values : Object
  tasks : List (TaskId × TaskDraft)
  reservation : Option (String × String × String)
  clock : Nat → Nat → Int

def BatchCall.ids (call : BatchCall) : List TaskId := call.tasks.map Prod.fst

/-- The response `submit_batch` reserves for the batch it is about to store. -/
def BatchCall.response (call : BatchCall) : BatchResponse := ⟨call.batchId, call.ids⟩

/-- The reservation an earlier call with the same key has left. -/
def findReservation (call : BatchCall) : Work Store (Option IdempotencyRecord) :=
  match call.reservation with
  | none => pure none
  | some (actor, route, key) =>
    Work.read (fun store : Store => some (store.db.reservation actor route key))

/-- `INSERT INTO idempotency`. -/
def reserve (call : BatchCall) : Work Store Unit :=
  match call.reservation with
  | none => pure ()
  | some (actor, route, key) =>
    onDb (fun db => some { db with
      idempotency := db.idempotency ++ [⟨actor, route, key, call.response, call.createdAt⟩] })

def fillBatch (call : BatchCall) : Work Store Unit := do
  onDb (insertBatch ⟨call.batchId, call.template, call.values, call.createdAt,
    configurationPath call.values⟩)
  insertBatchTasks call.now call.createdAt call.batchId call.clock call.tasks 0
  onDb (fun db => some (db.addEvent call.now none "batch.created"))
  reserve call

/-- The transaction of `create_batch`: the response stored earlier, or `none` after storing the
batch. -/
def batchTransaction (call : BatchCall) : Work Store (Option BatchResponse) := do
  let existing ← findReservation call
  match existing with
  | some row => pure (some row.response)
  | none => do
    fillBatch call
    pure none

/-- The records of some tasks, read one by one after the transaction. -/
def readTasks (ids : List TaskId) : Work Store (List TaskRecord) :=
  Work.each (fun id => Work.read (fun store : Store => store.db.getTask id)) ids

/-- `create_batch`, with the batch id `submit_batch` returns. -/
def createBatch (call : BatchCall) : Work Store (String × List TaskRecord) := do
  let previous ← Work.transaction (batchTransaction call)
  match previous with
  | some response => do
    let records ← readTasks response.taskIds
    pure (response.batchId, records)
  | none => do
    let records ← readTasks call.ids
    pure (call.batchId, records)

/-- A queued task written by the former starting-time seed contract. -/
def legacySeed (row : TaskRecord) : Bool :=
  row.state = .queued && (match Json.get? row.custom "_runtime_seed" with
    | some (.str text) => text = "unix"
    | _ => false)

def seedRequest : DeferredValue where
  source := .monotonicUnix
  nameSpace := "verification.seed"
  range := by decide
  pattern := List.all_eq_true.mp (by decide)

/-- `custom.pop(key, None)`. -/
def dropField (fields : Object) (key : String) : Object := fields.filter (fun field => field.1 ≠ key)

/-- The command and custom data with the seed in place. -/
def migrated (row : TaskRecord) (seed : Int) : Option (List String × Object) := do
  let values : Values := [("seed", seed)]
  let command ← row.command.mapM (fun item => (values.resolve (.str item)).map Json.text)
  let custom ← values.resolveFields row.custom
  some (command, Json.assign (dropField custom "_runtime_seed") "seed" (.int seed))

/-- `UPDATE tasks SET command_json=?,custom_json=? WHERE id=? AND state=...`. -/
def freezeSeed (id : TaskId) (command : List String) (custom : Object) (db : Db) : Db :=
  { db with
    tasks := db.tasks.update id
      (fun row => if row.state = .queued then { row with command, custom } else row)
      (fun row => by split <;> rfl) }

def migrateRows (clock : Nat → Int) : List TaskRecord → Nat → Work Store Unit
  | [], _ => pure ()
  | row :: rest, n => do
    let seed ← allocateDeferred (clock n) seedRequest
    let (command, custom) ← Work.given (migrated row seed)
    Work.write (fun store : Store => some { store with
      db := freezeSeed row.id command custom store.db
      commits := store.commits ++ [.migration row.id ⟨"seed", seedRequest, seed⟩] })
    migrateRows clock rest (n + 1)

/-- `_migrate_legacy_runtime_seeds`, which every start of the controller runs. -/
def migrateLegacySeeds (clock : Nat → Int) : Work Store Unit :=
  Work.transaction (do
    let rows ← Work.read (fun store : Store => some (store.db.tasks.rows.filter legacySeed))
    migrateRows clock rows 0)

end Store
end LocalFlow
