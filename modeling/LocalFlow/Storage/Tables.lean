import LocalFlow.Models
import LocalFlow.Library.Keyset
import Mathlib.Data.Prod.Lex
import Mathlib.Data.String.Basic
import Mathlib.Data.List.Nodup

/-! The tables of `storage.py` with the constraints SQLite enforces on them: unique task ids, and
event ids that only grow (`AUTOINCREMENT`). -/
namespace LocalFlow

/-- `tasks`, in rowid order. -/
structure Tasks where
  rows : List TaskRecord
  primaryKey : (rows.map TaskRecord.id).Nodup

namespace Tasks

def empty : Tasks := ⟨[], by simp⟩

def get? (tasks : Tasks) (id : TaskId) : Option TaskRecord :=
  tasks.rows.find? (fun row => row.id = id)

/-- `INSERT`: a duplicate id violates the primary key. -/
def insert (tasks : Tasks) (row : TaskRecord) : Option Tasks :=
  if fresh : row.id ∈ tasks.rows.map TaskRecord.id then none
  else some ⟨tasks.rows ++ [row], by
    rw [List.map_append, List.nodup_append]
    refine ⟨tasks.primaryKey, by simp, ?_⟩
    intro a left b right same
    simp only [List.map_cons, List.map_nil, List.mem_singleton] at right
    exact fresh (right ▸ same ▸ left)⟩

/-- `UPDATE ... WHERE id=?` with assignments that leave the id alone. -/
def update (tasks : Tasks) (id : TaskId) (set : TaskRecord → TaskRecord)
    (keeps : ∀ row, (set row).id = row.id) : Tasks where
  rows := tasks.rows.map (fun row => if row.id = id then set row else row)
  primaryKey := by
    have same : (tasks.rows.map (fun row => if row.id = id then set row else row)).map
        TaskRecord.id = tasks.rows.map TaskRecord.id := by
      rw [List.map_map]
      refine List.map_congr_left (fun row _ => ?_)
      simp only [Function.comp_apply]
      split
      · exact keeps row
      · rfl
    exact same ▸ tasks.primaryKey

/-- `DELETE ... WHERE id IN (...)`. -/
def delete (tasks : Tasks) (ids : List TaskId) : Tasks where
  rows := tasks.rows.filter (fun row => row.id ∉ ids)
  primaryKey := List.Nodup.sublist (List.filter_sublist.map _) tasks.primaryKey

variable {tasks : Tasks} {id other : TaskId} {row : TaskRecord}

theorem get?_mem (found : tasks.get? id = some row) : row ∈ tasks.rows ∧ row.id = id :=
  ⟨List.mem_of_find?_eq_some found, by simpa using List.find?_some found⟩

theorem get?_of_mem (member : row ∈ tasks.rows) : tasks.get? row.id = some row := by
  have unique := tasks.primaryKey
  unfold get?
  generalize tasks.rows = rows at member unique
  induction rows with
  | nil => cases member
  | cons head rest ih =>
    rw [List.map_cons, List.nodup_cons] at unique
    obtain rfl | later := List.mem_cons.mp member
    · simp
    · have apart : head.id ≠ row.id :=
        fun same => unique.1 (same ▸ List.mem_map_of_mem later)
      simp only [List.find?_cons, apart, decide_false]
      exact ih later unique.2

theorem get?_none : tasks.get? id = none ↔ ∀ row ∈ tasks.rows, row.id ≠ id := by
  simp [get?]

@[simp] theorem get?_update (set : TaskRecord → TaskRecord) (keeps : ∀ row, (set row).id = row.id) :
    (tasks.update id set keeps).get? other =
      if other = id then (tasks.get? other).map set else tasks.get? other := by
  simp only [get?, update, List.find?_map]
  have same : ((fun row : TaskRecord => decide (row.id = other)) ∘
      fun row => if row.id = id then set row else row) = fun row => decide (row.id = other) := by
    funext row
    simp only [Function.comp_apply]
    split <;> simp [keeps]
  rw [same]
  cases found : tasks.rows.find? (fun row => decide (row.id = other)) with
  | none => split <;> simp
  | some row =>
    have named : row.id = other := by simpa using List.find?_some found
    simp only [Option.map_some, named]
    split <;> rfl

theorem insert_some {inserted : Tasks} (h : tasks.insert row = some inserted) :
    tasks.get? row.id = none ∧ inserted.rows = tasks.rows ++ [row] := by
  unfold insert at h
  split at h
  · cases h
  · rename_i fresh
    cases h
    refine ⟨get?_none.mpr (fun r member same => fresh ?_), rfl⟩
    exact same ▸ List.mem_map_of_mem member

theorem get?_insert {inserted : Tasks} (h : tasks.insert row = some inserted) :
    inserted.get? other = if other = row.id then some row else tasks.get? other := by
  obtain ⟨fresh, rows⟩ := insert_some h
  simp only [get?] at fresh ⊢
  rw [rows, List.find?_append]
  by_cases same : other = row.id
  · subst same
    simp [fresh]
  · simp only [same, if_false, List.find?_singleton, Ne.symm same, decide_false]
    cases tasks.rows.find? _ <;> rfl

@[simp] theorem get?_delete (ids : List TaskId) :
    (tasks.delete ids).get? other = if other ∈ ids then none else tasks.get? other := by
  simp only [get?, delete, List.find?_filter]
  split
  · rename_i gone
    rw [List.find?_eq_none]
    rintro row _ both
    obtain ⟨kept, same⟩ : row.id ∉ ids ∧ row.id = other := by simpa using both
    exact kept (same ▸ gone)
  · rename_i kept
    congr 1
    funext row
    by_cases same : row.id = other
    · simp [same, kept]
    · simp [same]

end Tasks

/-- `events`, in id order; `next` is the id `AUTOINCREMENT` hands out next and is never reused.
`deleted` is a history variable: the events retention has removed. -/
structure Events where
  rows : List EventRecord
  deleted : List EventRecord
  next : Nat
  ascending : rows.Pairwise (fun a b => a.id < b.id)
  issued : ∀ event ∈ rows, event.id < next

namespace Events

def empty : Events := ⟨[], [], 1, by simp, by simp⟩

def append (events : Events) (now : String) (taskId : Option TaskId) (kind : String) : Events where
  rows := events.rows ++ [⟨events.next, taskId, kind, now⟩]
  deleted := events.deleted
  next := events.next + 1
  ascending := by
    rw [List.pairwise_append]
    refine ⟨events.ascending, by simp, ?_⟩
    intro a member b last
    rw [List.mem_singleton.mp last]
    exact events.issued a member
  issued := by
    intro event member
    obtain old | rfl := List.mem_append.mp member |>.imp_right List.mem_singleton.mp
    · exact Nat.lt_succ_of_lt (events.issued event old)
    · exact Nat.lt_succ_self _

def delete (events : Events) (drop : EventRecord → Bool) : Events where
  rows := events.rows.filter (fun event => !drop event)
  deleted := events.deleted ++ events.rows.filter drop
  next := events.next
  ascending := events.ascending.sublist List.filter_sublist
  issued := fun event member => events.issued event (List.mem_of_mem_filter member)

/-- The kinds of one task's events, in id order. -/
def kindsOf (events : Events) (id : TaskId) : List String :=
  (events.rows.filter (fun event => event.taskId = some id)).map EventRecord.kind

@[simp] theorem kindsOf_append (events : Events) (now : String) (taskId : Option TaskId)
    (kind : String) (id : TaskId) : (events.append now taskId kind).kindsOf id =
      if taskId = some id then events.kindsOf id ++ [kind] else events.kindsOf id := by
  by_cases mine : taskId = some id <;> simp [kindsOf, append, mine]

end Events

structure Acknowledgement where
  taskId : TaskId
  viewer : String

structure BatchRecord where
  id : String
  template : String
  values : Object
  createdAt : String
  configurationPath : Option String

structure BatchTask where
  batchId : String
  taskId : TaskId
  sequence : Nat

/-- The stored response of a reserved batch: `batch_id` and `task_ids` (`count` is their number). -/
structure BatchResponse where
  batchId : String
  taskIds : List TaskId

structure IdempotencyRecord where
  actor : String
  route : String
  key : String
  response : BatchResponse
  createdAt : String

/-- The database. `journal` is a history variable, not a table: the state written by every
committed insert or transition of a task, in commit order. -/
structure Db where
  tasks : Tasks
  events : Events
  acknowledgements : List Acknowledgement
  batches : List BatchRecord
  batchTasks : List BatchTask
  idempotency : List IdempotencyRecord
  journal : List (TaskId × TaskState)

namespace Db

def empty : Db := ⟨.empty, .empty, [], [], [], [], []⟩

/-- `get_task`; `none` is the `KeyError`. -/
def getTask (db : Db) (id : TaskId) : Option TaskRecord := db.tasks.get? id

/-- `_add_event_locked`. -/
def addEvent (db : Db) (now : String) (taskId : Option TaskId) (kind : String) : Db :=
  { db with events := db.events.append now taskId kind }

/-- The states written for one task, oldest first. -/
def written (db : Db) (id : TaskId) : List TaskState :=
  (db.journal.filter (fun entry => entry.1 = id)).map Prod.snd

@[simp] theorem getTask_addEvent (db : Db) (now : String) (taskId : Option TaskId) (kind : String) :
    (db.addEvent now taskId kind).getTask = db.getTask := rfl

@[simp] theorem tasks_addEvent (db : Db) (now : String) (taskId : Option TaskId) (kind : String) :
    (db.addEvent now taskId kind).tasks = db.tasks := rfl

@[simp] theorem journal_addEvent (db : Db) (now : String) (taskId : Option TaskId) (kind : String) :
    (db.addEvent now taskId kind).journal = db.journal := rfl

end Db
end LocalFlow
