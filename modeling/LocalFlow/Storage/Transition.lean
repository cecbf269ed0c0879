import LocalFlow.Storage.Tables
import LocalFlow.Storage.Status

/-! Statements of `Store` that change one task: guarded state transitions, the blocking note of a
queued task and the frozen stop strategy. -/
namespace LocalFlow

/-- One `column=?` assignment accepted by `transition`. -/
inductive Field where
  | startedAt (text : String)
  | endedAt (text : String)
  | exitCode (code : Int)
  | pid (number : Option Nat)
  | executorRef (reference : String)
  | interruptStage (stage : InterruptStage)
  | blockedBy (ids : List TaskId)
  | logSize (bytes : Nat)
  | startedMonotonic (seconds : Seconds)
  | elapsedSeconds (seconds : Option Seconds)
  | customJson (custom : Object)

def Field.assign (row : TaskRecord) : Field → TaskRecord
  | .startedAt text => { row with startedAt := some text }
  | .endedAt text => { row with endedAt := some text }
  | .exitCode code => { row with exitCode := some code }
  | .pid number => { row with pid := number }
  | .executorRef reference => { row with executorRef := some reference }
  | .interruptStage stage => { row with interruptStage := some stage }
  | .blockedBy ids => { row with blockedBy := ids }
  | .logSize bytes => { row with logSize := bytes }
  | .startedMonotonic seconds => { row with startedMonotonic := some seconds }
  | .elapsedSeconds seconds => { row with elapsedSeconds := seconds }
  | .customJson custom => { row with custom }

def TaskRecord.assign (row : TaskRecord) (fields : List Field) : TaskRecord :=
  fields.foldl Field.assign row

def TaskRecord.moved (row : TaskRecord) (state : TaskState) (fields : List Field)
    (status : TaskStatus) : TaskRecord :=
  { row.assign fields with state, status }

/-- What `transition` tells its caller; `raised` leaves no statement behind. -/
inductive Reply where
  | committed | refused | raised
  deriving DecidableEq, Repr

/-- The event kind of a state. -/
def lifecycleKind (state : TaskState) : String := "task." ++ state.value

section Fields
variable (row : TaskRecord) (fields : List Field)

/-- A column no assignment names keeps its value. -/
theorem assign_frame {α : Type} (column : TaskRecord → α)
    (frame : ∀ row, ∀ field ∈ fields, column (Field.assign row field) = column row) :
    column (row.assign fields) = column row := by
  unfold TaskRecord.assign
  induction fields generalizing row with
  | nil => rfl
  | cons field rest ih =>
    rw [List.foldl_cons, ih _ (fun r f member => frame r f (List.mem_cons_of_mem _ member))]
    exact frame row field List.mem_cons_self

@[simp] theorem assign_id : (row.assign fields).id = row.id :=
  assign_frame row fields TaskRecord.id (fun _ field _ => by cases field <;> rfl)

@[simp] theorem assign_state : (row.assign fields).state = row.state :=
  assign_frame row fields TaskRecord.state (fun _ field _ => by cases field <;> rfl)

@[simp] theorem assign_createdAt : (row.assign fields).createdAt = row.createdAt :=
  assign_frame row fields TaskRecord.createdAt (fun _ field _ => by cases field <;> rfl)

@[simp] theorem assign_mutexKeys : (row.assign fields).mutexKeys = row.mutexKeys :=
  assign_frame row fields (fun r => r.mutexKeys) (fun _ field _ => by cases field <;> rfl)

@[simp] theorem assign_stop : (row.assign fields).stop = row.stop :=
  assign_frame row fields (fun r => r.stop) (fun _ field _ => by cases field <;> rfl)

@[simp] theorem assign_pluginSnapshot : (row.assign fields).pluginSnapshot = row.pluginSnapshot :=
  assign_frame row fields (fun r => r.pluginSnapshot) (fun _ field _ => by cases field <;> rfl)

variable (state : TaskState) (status : TaskStatus)

@[simp] theorem moved_id : (row.moved state fields status).id = row.id := assign_id row fields

@[simp] theorem moved_state : (row.moved state fields status).state = state := rfl

@[simp] theorem moved_createdAt : (row.moved state fields status).createdAt = row.createdAt :=
  assign_createdAt row fields

@[simp] theorem moved_mutexKeys : (row.moved state fields status).mutexKeys = row.mutexKeys :=
  assign_mutexKeys row fields

@[simp] theorem moved_stop : (row.moved state fields status).stop = row.stop :=
  assign_stop row fields

@[simp] theorem moved_pluginSnapshot :
    (row.moved state fields status).pluginSnapshot = row.pluginSnapshot :=
  assign_pluginSnapshot row fields

end Fields

namespace Db

/-- The transaction of `transition`: the row update and its event, or neither. -/
def move (db : Db) (now : String) (id : TaskId) (state : TaskState) (fields : List Field)
    (status : TaskStatus) : Db :=
  { db with
    tasks := db.tasks.update id (fun row => row.moved state fields status)
      (fun row => moved_id row fields state status)
    journal := db.journal ++ [(id, state)] }.addEvent now (some id) (lifecycleKind state)

/-- `transition`: the status is derived first, then the guarded update runs. -/
def transition (db : Db) (now : String) (id : TaskId) (expected : List TaskState)
    (state : TaskState) (fields : List Field) (statusOverride : Option TaskStatus := none) :
    Db × Reply :=
  if expected = [] then (db, .refused)
  else match db.getTask id with
    | none => (db, .refused)
    | some row =>
      let exitCode := (row.assign fields).exitCode
      let stage := (row.assign fields).interruptStage
      match statusOverride <|> displayStatus row.pluginSnapshot state exitCode stage with
      | none => (db, .raised)
      | some status =>
        if row.state ∈ expected then (db.move now id state fields status, .committed)
        else (db, .refused)

/-- `sorted(set(items))`. -/
def sortedSet (items : List String) : List String := items.dedup.insertionSort (· ≤ ·)

/-- `set_blocked_by` writes only a queued task whose note changes. -/
def blockedChanges (db : Db) (id : TaskId) (blockers keys : List String) : Bool :=
  (db.getTask id).any (fun row => row.state = .queued &&
    !(row.blockedBy = sortedSet blockers && row.blockedKeys = sortedSet keys))

/-- The update of `set_blocked_by`; its event is a statement of its own. -/
def noteBlocked (db : Db) (id : TaskId) (blockers keys : List String) : Db :=
  { db with
    tasks := db.tasks.update id (fun row => if row.state = .queued then
        { row with blockedBy := sortedSet blockers, blockedKeys := sortedSet keys } else row)
      (fun row => by split <;> rfl) }

/-- `snapshot_stop`: freeze a strategy where none is stored. -/
def snapshotStop (db : Db) (id : TaskId) (strategy : StopStrategy) : Db :=
  { db with
    tasks := db.tasks.update id
      (fun row => if row.stop.isNone then { row with stop := some strategy } else row)
      (fun row => by split <;> rfl) }

variable {db : Db} {now : String} {id other : TaskId}

@[simp] theorem getTask_move (state : TaskState) (fields : List Field) (status : TaskStatus) :
    (db.move now id state fields status).getTask other =
      if other = id then (db.getTask other).map (fun row => row.moved state fields status)
      else db.getTask other := by
  simp [move, getTask, addEvent]

/-- A transition raises over a snapshot it cannot show, is refused because no expected row exists,
or is one committed move of an expected row. -/
theorem transition_cases (db : Db) (now : String) (id : TaskId) (expected : List TaskState)
    (state : TaskState) (fields : List Field) (override : Option TaskStatus) :
    (db.transition now id expected state fields override = (db, .raised) ∧
      ∃ row, db.getTask id = some row ∧ ¬ Displayable row.pluginSnapshot) ∨
    (db.transition now id expected state fields override = (db, .refused) ∧
      ∀ row, db.getTask id = some row → row.state ∉ expected) ∨
    ∃ row status, db.getTask id = some row ∧ row.state ∈ expected ∧
      db.transition now id expected state fields override =
        (db.move now id state fields status, .committed) := by
  unfold transition
  split
  · rename_i none
    exact .inr (.inl ⟨rfl, fun row _ => by simp [none]⟩)
  · split
    · rename_i missing
      exact .inr (.inl ⟨rfl, fun row found => by simp [missing] at found⟩)
    · rename_i row found
      simp only
      split
      · rename_i hidden
        have dark : displayStatus row.pluginSnapshot state (row.assign fields).exitCode
            (row.assign fields).interruptStage = none := by
          cases override <;> simp_all
        refine .inl ⟨rfl, row, found, fun shown => ?_⟩
        have visible := shown state (row.assign fields).exitCode (row.assign fields).interruptStage
        simp [dark] at visible
      · rename_i status _
        split
        · rename_i expects
          exact .inr (.inr ⟨row, status, found, expects, rfl⟩)
        · rename_i unexpected
          refine .inr (.inl ⟨rfl, fun other same => ?_⟩)
          rw [found] at same
          exact Option.some.inj same ▸ unexpected

end Db
end LocalFlow
