import LocalFlow.Service.Interrupt

/-! The controller and its host: the database, the coroutines of every task, the scheduler loop and
the phases of the controller's life from `start` to `shutdown_all`. -/
namespace LocalFlow
open Faults

structure Config where
  backend : Backend
  namespaceHash : String
  maxConcurrency : Option Int
  cleanupInterval : Seconds
  logLimit : Nat
  hasEvaluator : Bool

/-- `host-boot.json`. -/
inductive Receipt where
  | missing | invalid
  | recorded (boot : String)
  deriving DecidableEq

/-- The task of `_loop`. It fails when a turn raises; nothing restarts it. -/
inductive Loop where
  | absent | live | finished | failed
  deriving DecidableEq

inductive RecoveryPoint where
  | next
  | probing (task : TaskRecord) (completed : Option Int) (answer : Option Bool)
  | evaluating (task : TaskRecord) (code : Int)

/-- The local variables of `recover`: the rest of the page and, if it was full, its last key. -/
structure Recovery where
  bootId : Option String
  hostRestarted : Bool
  todo : List TaskRecord
  tail : Option SortKey
  point : RecoveryPoint

/-- Where `shutdown_all` is suspended. The lists of the forced stage make up `remaining`. -/
inductive Shutdown where
  | awaitingScheduler (timeout : Seconds)
  | awaitingStarters (timeout : Seconds)
  | waiting (deadline wake : Seconds)
  | cancelling (remaining : List TaskId)
  | killing (delivered : List TaskId) (current : TaskId) (todo : List TaskId)
  | confirming (exited : List TaskId) (current : TaskId) (todo : List TaskId) (confirm : Confirm)
  | returned
  | raised

inductive Phase where
  | down
  | recovering (recovery : Recovery)
  | serving
  | closing (shutdown : Shutdown)

namespace Phase

def isDown : Phase → Bool
  | down => true
  | _ => false

def isServing : Phase → Bool
  | serving => true
  | _ => false

def hasReturned : Phase → Bool
  | closing .returned => true
  | _ => false

def hasRaised : Phase → Bool
  | closing .raised => true
  | _ => false

variable {phase : Phase}

theorem isDown_iff : phase.isDown = true ↔ phase = .down := by
  cases phase <;> simp [isDown]

theorem isServing_iff : phase.isServing = true ↔ phase = .serving := by
  cases phase <;> simp [isServing]

theorem hasReturned_iff : phase.hasReturned = true ↔ phase = .closing .returned := by
  unfold hasReturned
  split <;> simp_all

theorem hasRaised_iff : phase.hasRaised = true ↔ phase = .closing .raised := by
  unfold hasRaised
  split <;> simp_all

end Phase

structure System where
  db : Db
  cells : Dict TaskId Cell
  logs : Logs
  wall : String
  monotonic : Seconds
  boot : String
  receipt : Receipt
  phase : Phase
  loop : Loop
  queueCursor : Option SortKey
  lastCleanup : Seconds

namespace System
variable (config : Config) (s : System)

def moment (id : TaskId) : Moment :=
  ⟨s.wall, s.monotonic, (s.logs.lookup id).bind LogDirectory.output⟩

def slot (id : TaskId) : Slot := ⟨s.db, s.cells.get id⟩

def put (id : TaskId) (slot : Slot) : System :=
  { s with db := slot.db, cells := s.cells.set id slot.cell }

/-- The controller process ends, whatever it was doing. -/
def crash : System :=
  { s with
    cells := s.cells.map (fun cell => { tree := cell.tree.orphan config.backend })
    phase := .down
    loop := .absent
    queueCursor := none
    lastCleanup := 0 }

/-- The host restarts: no process and no launch survives. -/
def reboot (boot : String) : System :=
  let crashed := s.crash config
  { crashed with boot, cells := crashed.cells.map (fun cell => { cell with tree := cell.tree.reboot }) }

/-- `submit`. The id is the next draw of `new_id`, which has not been used before. -/
def submit (id : TaskId) (draft : TaskCreate) : Option System :=
  if s.db.written id = [] then
    (s.db.createTask s.wall id draft).map (fun db => { s with db })
  else none

def submitBatch (batchId template : String) (values : Object) (tasks : List (TaskId × TaskCreate))
    (idempotency : Option (String × String × String × BatchResponse)) : Option System :=
  if (tasks.map Prod.fst).Nodup ∧ ∀ id ∈ tasks.map Prod.fst, s.db.written id = [] then
    (s.db.createBatch s.wall s.wall batchId template values tasks idempotency).map
      (fun result => { s with db := result.1 })
  else none

/-- A request to interrupt; an exception goes to the caller of the request. -/
def interrupt (id : TaskId) (sigintGrace sigtermGrace : Grace) : System :=
  s.put id ((s.slot id).interrupt (s.moment id) id sigintGrace sigtermGrace).1

/-- A process writes to its log. -/
def output (id : TaskId) (bytes : List UInt8) : System :=
  let directory := (s.logs.lookup id).getD ⟨none, 0⟩
  { s with
    logs := (id, { directory with output := some (directory.output.getD [] ++ bytes) }) ::
      s.logs.remove id }

/-- `maintain`, if it is due or wanted, and the turn to go on with. -/
def upkeep (cutoff : String) (faults : Option Nat) (wanted : Bool) : Turn System :=
  let turn : Turn Upkeep :=
    ⟨{ db := s.db, logs := s.logs, lastCleanup := s.lastCleanup }, faults, false⟩
  let done := if wanted then maintain cutoff config.logLimit s.monotonic turn else turn
  done.into (fun upkeep => { s with
    db := upkeep.db
    logs := upkeep.logs
    cells := upkeep.unlinked.foldl (fun cells id =>
      cells.set id { cells.get id with tree := (cells.get id).tree.unlink config.backend }) s.cells
    lastCleanup := upkeep.lastCleanup })

/-- `_schedule` and the starters it creates. -/
def schedule (faults : Option Nat) : Turn System :=
  let turn : Turn Scan := ⟨{ db := s.db, cursor := s.queueCursor }, faults, false⟩
  (LocalFlow.schedule config.maxConcurrency s.wall s.monotonic turn).into (fun scan => { s with
    db := scan.db
    queueCursor := scan.cursor
    cells := scan.started.foldl (fun cells id =>
      cells.set id { cells.get id with starter := some .created }) s.cells })

/-- The body of `_loop`. -/
def turn (cutoff : String) (faults : Option Nat) : Turn System :=
  let cleaned := s.upkeep config cutoff faults
    (config.cleanupInterval ≤ s.monotonic - s.lastCleanup)
  if cleaned.raised then cleaned else cleaned.state.schedule config cleaned.faults

/-- A turn of the loop. Nothing catches what it raises. -/
def tick (cutoff : String) (faults : Option Nat) : System :=
  let done := s.turn config cutoff faults
  if done.raised then { done.state with loop := .failed } else done.state

end System

inductive RecoverAct where
  | next | query | queryRaise | resume
  | evaluated (evaluation : Evaluation)
  | finish (receiptFails : Bool) (cutoff : String) (faults : Option Nat)

namespace System
variable (config : Config) (s : System)

/-- The next page of `_all_tasks` and, if it is full, where the one after it begins. -/
def ownedPage (cursor : Option SortKey) : List TaskRecord × Option SortKey :=
  let page := s.db.statePage activeStates taskPageSize cursor
  (page, if page.length < taskPageSize then none else page.getLast?.map TaskRecord.sortKey)

/-- `recover` up to its first page of owned tasks. -/
def recoverBegin (readable : Bool) : System :=
  let bootId := if readable then some s.boot else none
  let hostRestarted :=
    match bootId, s.receipt with
    | some now, .recorded before => decide (now ≠ before)
    | _, _ => false
  let (todo, tail) := s.ownedPage none
  { s with phase := .recovering ⟨bootId, hostRestarted, todo, tail, .next⟩ }

/-- A recovered task ends in a transition; an exception ends the startup. -/
def settleRecovered (recovery : Recovery) (id : TaskId) (state : TaskState) (fields : List Field)
    (override : Option TaskStatus := none) (extra : Option String := none) : System :=
  match s.db.transition s.wall id liveStates state fields override with
  | (db, .raised) => { s with db }.crash config
  | (db, _) => { s with
      db := extra.elim db (fun kind => db.addEvent s.wall (some id) kind)
      phase := .recovering { recovery with point := .next } }

def recoverNext (recovery : Recovery) : Option System :=
  match recovery.todo with
  | [] => recovery.tail.map (fun key =>
      let (todo, tail) := s.ownedPage (some key)
      { s with phase := .recovering { recovery with todo, tail } })
  | task :: rest =>
    let recovery := { recovery with todo := rest }
    if recovery.hostRestarted then
      some (s.settleRecovered config recovery task.id .lost
        [.endedAt s.wall, .elapsedSeconds none] none (some "task.host_restarted"))
    else match completedCode config.backend (s.cells.get task.id).tree with
      | none => some (s.crash config)
      | some completed =>
        some { s with phase := .recovering { recovery with point := .probing task completed none } }

def recoveryGrace : Grace × Grace := (⟨20, by decide, by decide⟩, ⟨10, by decide, by decide⟩)

/-- What `recover` decides about a task once it knows whether its tree is running. -/
def recoverResume (recovery : Recovery) (task : TaskRecord) (completed : Option Int)
    (running : Bool) : System :=
  match completed, running with
  | some code, false => { s with phase := .recovering { recovery with point := .evaluating task code } }
  | _, true =>
    let watched := (s.slot task.id).withWaiter (some .created)
    let slot := if task.interruptStage.isSome then
      watched.startInterrupt recoveryGrace.1 recoveryGrace.2 else watched
    { s.put task.id slot with phase := .recovering { recovery with point := .next } }
  | none, false =>
    if task.interruptStage = some .sigkill then
      s.settleRecovered config recovery task.id .cancelled
        [.endedAt s.wall, .exitCode 137, .elapsedSeconds (elapsed (s.moment task.id) task)]
    else s.settleRecovered config recovery task.id .lost [.endedAt s.wall]

def recoverEvaluated (recovery : Recovery) (task : TaskRecord) (code : Int) (verdict : Verdict) :
    System :=
  let noted := if verdict.failed then
    { s with db := s.db.addEvent s.wall (some task.id) "task.result_evaluation_error" } else s
  match verdict.custom with
  | none => noted.crash config
  | some custom => noted.settleRecovered config recovery task.id (Slot.resultState task code)
      [.endedAt s.wall, .exitCode code, .logSize (s.moment task.id).logSize,
        .elapsedSeconds (elapsed (s.moment task.id) task), .customJson custom]
      verdict.statusOverride

/-- The receipt, the first retention and the scheduler loop. -/
def recoverFinish (recovery : Recovery) (receiptFails : Bool) (cutoff : String)
    (faults : Option Nat) : System :=
  if receiptFails && recovery.bootId.isSome then s.crash config
  else
    let receipt := recovery.bootId.elim s.receipt .recorded
    let cleaned := { s with receipt }.upkeep config cutoff faults true
    if cleaned.raised then cleaned.state.crash config
    else { cleaned.state with phase := .serving, loop := .live }

/-- One step of `recover`; `none` when it is not suspended there. -/
def recoverStep (recovery : Recovery) (act : RecoverAct) : Option System :=
  match recovery.point, act with
  | .next, .next => s.recoverNext config recovery
  | .probing task completed none, .query => some { s with phase := .recovering { recovery with
      point := .probing task completed
        (some (isRunning config.backend task.executorRef (s.cells.get task.id).tree)) } }
  | .probing _ _ none, .queryRaise => some (s.crash config)
  | .probing task completed (some running), .resume =>
    some (s.recoverResume config recovery task completed running)
  | .evaluating task code, .evaluated evaluation => some (s.recoverEvaluated config recovery task
      code (evaluateResult config.hasEvaluator task code evaluation))
  | .next, .finish receiptFails cutoff faults =>
    if recovery.todo.isEmpty && recovery.tail.isNone then
      some (s.recoverFinish config recovery receiptFails cutoff faults)
    else none
  | _, _ => none

end System

inductive ShutdownAct where
  | scheduler | drain | poll | gathered | killed | killRaise
  | confirm (act : ConfirmAct)
  deriving DecidableEq

namespace System
variable (config : Config) (s : System)

def interruptibleStates : List TaskState := [.queued, .starting, .running]
def unfinishedStates : List TaskState := [.queued, .starting, .running, .stopping]

def closing (shutdown : Shutdown) : System := { s with phase := .closing shutdown }

/-- Interrupt every task of a page, up to the first exception. -/
def interruptAll : List TaskId → System → System × Bool
  | [], s => (s, false)
  | id :: rest, s =>
    let (slot, raised) :=
      (s.slot id).interrupt (s.moment id) id recoveryGrace.1 recoveryGrace.2
    if raised then (s.put id slot, true) else interruptAll rest (s.put id slot)

/-- The draining loop. It ends with the page that is empty; `none` when it would never end. -/
def drain : Nat → System → Option (System × Bool)
  | 0, _ => none
  | fuel + 1, s =>
    match s.db.statePage interruptibleStates 10000 none with
    | [] => some (s, false)
    | page =>
      let (next, raised) := interruptAll (page.map TaskRecord.id) s
      if raised then some (next, true) else drain fuel next

/-- Each task of `remaining` must be confirmed; those already ended are at once. -/
def confirmNext (exited : List TaskId) : List TaskId → System
  | [] => s.closing .returned
  | id :: todo =>
    match (s.slot id).confirmLoop (s.moment id) id 0 with
    | .raised => s.closing .raised
    | .returned => confirmNext (exited ++ [id]) todo
    | .awaiting confirm => s.closing (.confirming exited id todo confirm)

/-- Each task of `remaining` gets its SIGKILL. -/
def killNext (delivered todo : List TaskId) : System :=
  match todo with
  | [] => s.confirmNext [] delivered
  | id :: todo =>
    match s.db.transition s.wall id liveStates .stopping [.interruptStage .sigkill] with
    | (db, .raised) => { s with db }.closing .raised
    | (db, _) => { s with db }.closing (.killing delivered id todo)

/-- The forced stage: cancel the running sequences first. -/
def forceAll : System :=
  let remaining := (s.db.allTasks unfinishedStates).map TaskRecord.id
  if remaining.any (fun id => (s.cells.get id).sequence.isSome) then
    { s with cells := remaining.foldl (fun cells id => cells.set id { cells.get id with
        sequence := (cells.get id).sequence.map Sequence.cancel }) s.cells }.closing
      (.cancelling remaining)
  else s.killNext [] remaining

/-- The loop that waits for the graceful stops. -/
def awaitExits (deadline : Seconds) : System :=
  if s.monotonic < deadline then
    if (s.db.allTasks unfinishedStates).isEmpty then s.closing .returned
    else s.closing (.waiting deadline (s.monotonic + 1 / 10))
  else s.forceAll

/-- The sequence of a task has been cancelled and has ended. -/
def sequenceOver (id : TaskId) : Bool :=
  match (s.cells.get id).sequence with
  | none => true
  | some sequence => match sequence.point with
    | .ended => true
    | _ => false

/-- One step of `shutdown_all`; `none` when it is not suspended there. -/
def shutdownStep (shutdown : Shutdown) (act : ShutdownAct) : Option System :=
  match shutdown, act with
  | .awaitingScheduler timeout, .scheduler =>
    match s.loop with
    | .live => none
    | .failed => some (s.closing .raised)
    | .absent | .finished => some (s.closing (.awaitingStarters timeout))
  | .awaitingStarters timeout, .drain =>
    if s.cells.all (fun cell => cell.starter.isNone) then
      (drain (s.db.tasks.rows.length + 1) s).map (fun (drained, raised) =>
        if raised then drained.closing .raised
        else drained.awaitExits (drained.monotonic + timeout))
    else none
  | .waiting deadline wake, .poll =>
    if wake ≤ s.monotonic then some (s.awaitExits deadline) else none
  | .cancelling remaining, .gathered =>
    if remaining.all (fun id => s.sequenceOver id) then some (s.killNext [] remaining) else none
  | .killing delivered current todo, .killed => some (s.killNext (delivered ++ [current]) todo)
  | .killing _ _ _, .killRaise => some (s.closing .raised)
  | .confirming exited current todo confirm, .confirm act =>
    ((s.slot current).confirmStep config.backend (s.moment current) current confirm act).map
      (fun (slot, result) =>
        let next := s.put current slot
        match result with
        | .awaiting confirm => next.closing (.confirming exited current todo confirm)
        | .returned => next.confirmNext (exited ++ [current]) todo
        | .raised => next.closing .raised)
  | _, _ => none

end System
end LocalFlow
