import LocalFlow.Service.Coroutines

/-! The steps of `_start` and `_wait` for one task. -/
namespace LocalFlow

/-- The states every caller that ends a task expects. -/
def liveStates : List TaskState := [.starting, .running, .stopping]

namespace Slot
variable (backend : Backend) (moment : Moment) (id : TaskId) (slot : Slot)

def event (kind : String) : Slot :=
  { slot with db := slot.db.addEvent moment.now (some id) kind }

/-- A transition whose answer the caller ignores. -/
def transition (expected : List TaskState) (state : TaskState) (fields : List Field)
    (override : Option TaskStatus := none) : Slot :=
  { slot with db := (slot.db.transition moment.now id expected state fields override).1 }

def withStarter (starter : Option Starter) : Slot :=
  { slot with cell := { slot.cell with starter } }

def withWaiter (waiter : Option Waiter) : Slot :=
  { slot with cell := { slot.cell with waiter } }

def withTree (tree : Tree) : Slot :=
  { slot with cell := { slot.cell with tree } }

/-- `_start` up to the launch. -/
def startBegin : Slot :=
  match slot.db.getTask id with
  | none => slot.withStarter none
  | some task => (slot.withTree .requested).withStarter (some (.launching task))

/-- The launch was accepted. -/
def startReturn (namespaceHash : String) (pid : Nat) : Slot :=
  match slot.db.transition moment.now id [.starting] .running
      [.pid (startPid backend pid), .executorRef (startReference backend namespaceHash id pid)] with
  | (db, .raised) => { slot with db }.withStarter none
  | (db, _) => ({ slot with db }.withStarter none).withWaiter (some .created)

/-- `executor.start` raised. The subprocess executor collects a process it did create. -/
def startRaise (task : TaskRecord) : Slot :=
  (((slot.withTree (slot.cell.tree.collect backend)).event moment id "task.start_error").transition
    moment id [.starting] .failed
    [.endedAt moment.now, .exitCode 127, .logSize moment.logSize,
      .elapsedSeconds (elapsed moment task)]).withStarter none

/-- `_wait` has an exit code and reads the row again. -/
def collected (code : Int) : Slot :=
  match slot.db.getTask id with
  | none => slot.withWaiter none
  | some task =>
    if task.state.terminal then slot.withWaiter none
    else slot.withWaiter (some (.evaluating task code))

/-- `executor.wait` raised; the ownership is checked next. -/
def waitRaise (failures : Nat) : Slot :=
  let noted := (slot.withTree (slot.cell.tree.collect backend)).event moment id "task.wait_error"
  match noted.db.getTask id with
  | none => noted.withWaiter none
  | some current => noted.withWaiter (some (.probing (failures + 1) current none))

/-- The tree still runs, or the check failed. -/
def waitRetry (failures : Nat) : Slot :=
  (slot.event moment id "task.wait_retry").withWaiter
    (some (.backoff failures (moment.monotonic + min (failures / 4) 2)))

def waitProbeError (failures : Nat) : Slot :=
  (slot.event moment id "task.wait_probe_error").waitRetry moment id failures

/-- `_wait` after its check of the ownership. -/
def waitResume (failures : Nat) (current : TaskRecord) (running : Bool) : Slot :=
  match completedCode backend slot.cell.tree with
  | none => slot.waitProbeError moment id failures
  | some completed =>
    if running then slot.waitRetry moment id failures
    else match completed with
      | some code => slot.collected id code
      | none => (slot.transition moment id [.running, .starting, .stopping] .lost
          [.endedAt moment.now, .elapsedSeconds (elapsed moment current)]).withWaiter none

def resultState (task : TaskRecord) (code : Int) : TaskState :=
  if task.interruptStage.isSome then .cancelled else if code = 0 then .succeeded else .failed

/-- `_wait` with the evaluated result. Custom data that cannot be encoded raises. -/
def waitEvaluated (task : TaskRecord) (code : Int) (verdict : Verdict) : Slot :=
  let noted := if verdict.failed then slot.event moment id "task.result_evaluation_error" else slot
  match verdict.custom with
  | none => noted.withWaiter none
  | some custom =>
    (noted.transition moment id [.running, .starting, .stopping] (resultState task code)
      [.endedAt moment.now, .exitCode code, .logSize moment.logSize,
        .elapsedSeconds (elapsed moment task), .customJson custom] verdict.statusOverride).withWaiter
      none

end Slot
end LocalFlow
