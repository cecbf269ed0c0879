import LocalFlow.Storage.Updates
import LocalFlow.Storage.List
import LocalFlow.Library.Faults
import Mathlib.Algebra.GroupWithZero.Nat

/-! One turn of the scheduler loop: retention (`maintain`) and paged admission (`_schedule`).
Neither suspends, so each is a single step of the event loop; any store or file-system call inside
may raise and abandon the rest of the turn. -/
namespace LocalFlow
open Faults

def activeStates : List TaskState := [.starting, .running, .stopping]

@[simp] theorem mem_activeStates {state : TaskState} :
    state ∈ activeStates ↔ state.active = true := by
  cases state <;> simp [activeStates, TaskState.active]

/-- One directory under `logs`: the bytes of `output.log`, if it exists, and the size of the other
files. -/
structure LogDirectory where
  output : Option (List UInt8)
  otherBytes : Nat

def LogDirectory.size (directory : LogDirectory) : Nat :=
  (directory.output.elim 0 List.length) + directory.otherBytes

abbrev Logs := List (TaskId × LogDirectory)

def Logs.total (logs : Logs) : Nat := (logs.map (fun entry => entry.2.size)).sum

def Logs.remove (logs : Logs) (id : TaskId) : Logs := logs.filter (fun entry => entry.1 ≠ id)

/-- What `maintain` reads and writes; `unlinked` are the tasks whose instance files are removed. -/
structure Upkeep where
  db : Db
  logs : Logs
  deleted : List TaskId := []
  total : Nat := 0
  unlinked : List TaskId := []
  lastCleanup : Seconds

/-- A deleted task loses its log directory. -/
def removeLog (turn : Turn Upkeep) (id : TaskId) : Turn Upkeep :=
  if (turn.state.logs.lookup id).isNone then turn
  else (turn.call (fun u => { u with logs := u.logs.remove id })).call
    (fun u => { u with db := u.db.setLogSize id 0 })

/-- Delete the oldest ended task while the logs exceed their total budget. -/
def shrinkLogs (limit : Nat) (turn : Turn Upkeep) (id : TaskId) : Turn Upkeep :=
  if turn.state.total ≤ limit then turn
  else match turn.state.logs.lookup id with
    | none => turn
    | some directory =>
      match turn.state.db.purgeTerminalTask id with
      | none => turn.raise
      | some (_, false) => turn.call (fun u => u)
      | some (purged, true) =>
        ((turn.call (fun u => { u with db := purged })).call
          (fun u => { u with logs := u.logs.remove id })).set
          (fun u => { u with total := u.total - directory.size, deleted := u.deleted ++ [id] })

/-- The call of `purge_retention`. -/
def purgeExpired (cutoff : String) (turn : Turn Upkeep) : Turn Upkeep :=
  match turn.state.db.purgeRetention cutoff cutoff cutoff with
  | none => turn.raise
  | some (db, deleted) => turn.call (fun u => { u with db, deleted })

/-- It raises, or it deletes what has expired. -/
theorem purgeExpired_cases (cutoff : String) (turn : Turn Upkeep) :
    purgeExpired cutoff turn = turn.raise ∨
    purgeExpired cutoff turn = turn.call (fun u => { u with
      db := turn.state.db.retained cutoff cutoff cutoff
      deleted := turn.state.db.terminalTaskIdsBefore cutoff }) := by
  unfold purgeExpired
  rw [Db.purgeRetention_eq]
  by_cases few : (turn.state.db.terminalTaskIdsBefore cutoff).length ≤ Db.variableLimit
  · rw [if_pos few]
    exact .inr rfl
  · rw [if_neg few]
    exact .inl rfl

theorem purgeExpired_few {cutoff : String} {turn : Turn Upkeep}
    (few : (turn.state.db.terminalTaskIdsBefore cutoff).length ≤ Db.variableLimit) :
    purgeExpired cutoff turn = turn.call (fun u => { u with
      db := turn.state.db.retained cutoff cutoff cutoff
      deleted := turn.state.db.terminalTaskIdsBefore cutoff }) := by
  unfold purgeExpired
  rw [Db.purgeRetention_eq, if_pos few]

/-- `maintain`: `cutoff` is the current time less the retention days. -/
def maintain (cutoff : String) (limit : Nat) (monotonic : Seconds) (turn : Turn Upkeep) :
    Turn Upkeep :=
  let purged := purgeExpired cutoff turn
  let cleaned := purged.state.deleted.foldl removeLog (purged.call (fun u => u))
  let measured := (cleaned.call (fun u => { u with total := u.logs.total })).call (fun u => u)
  let shrunk := measured.state.db.terminalTaskIdsOldest.foldl (shrinkLogs limit) measured
  let unlinked := shrunk.state.deleted.foldl
    (fun turn id => turn.call (fun u => { u with unlinked := u.unlinked ++ [id] })) shrunk
  unlinked.set (fun u => { u with lastCleanup := monotonic })

/-- The local variables of `_schedule`, with the service fields it writes. -/
structure Scan where
  db : Db
  cursor : Option SortKey
  started : List TaskId := []
  holders : List (String × TaskId) := []
  capacity : Option Nat := none
  last : Option TaskRecord := none
  scannedAll : Bool := true

namespace Scan

/-- `held.intersection(task.mutex_keys)`. -/
def shared (scan : Scan) (task : TaskRecord) : List String :=
  task.mutexKeys.filter (fun key => key ∈ scan.holders.map Prod.fst)

def blockers (scan : Scan) (task : TaskRecord) : List TaskId :=
  task.mutexKeys.flatMap (fun key =>
    (scan.holders.filter (fun entry => entry.1 = key)).map Prod.snd)

def occupy (scan : Scan) (task : TaskRecord) : Scan :=
  { scan with
    holders := scan.holders ++ task.mutexKeys.map (fun key => (key, task.id))
    started := scan.started ++ [task.id]
    capacity := scan.capacity.map (fun n => n - 1) }

end Scan

/-- `set_blocked_by`: the update and its event are two statements. -/
def setBlockedBy (now : String) (id : TaskId) (blockers keys : List String)
    (turn : Turn Scan) : Turn Scan :=
  if turn.state.db.blockedChanges id blockers keys then
    (turn.call (fun scan => { scan with db := scan.db.noteBlocked id blockers keys })).call
      (fun scan => { scan with db := scan.db.addEvent now (some id) "task.blocked" })
  else turn.call (fun scan => scan)

def startFields (now : String) (monotonic : Seconds) : List Field :=
  [.startedAt now, .startedMonotonic monotonic]

/-- Move a queued task to starting and create its starter. -/
def admitTask (now : String) (monotonic : Seconds) (turn : Turn Scan) (task : TaskRecord) :
    Turn Scan :=
  match turn.state.db.transition now task.id [.queued] .starting (startFields now monotonic) with
  | (_, .raised) => turn.raise
  | (_, .refused) => turn.call (fun scan => scan)
  | (db, .committed) => turn.call (fun scan => { scan.occupy task with db })

def scanTask (now : String) (monotonic : Seconds) (turn : Turn Scan) (task : TaskRecord) :
    Turn Scan :=
  if turn.raised || !turn.state.scannedAll then turn
  else if turn.state.capacity = some 0 then turn.set (fun scan => { scan with scannedAll := false })
  else
    let visited := turn.set (fun scan => { scan with last := some task })
    let keys := visited.state.shared task
    if keys = [] then admitTask now monotonic (setBlockedBy now task.id [] [] visited) task
    else setBlockedBy now task.id (visited.state.blockers task) keys visited

/-- Free places: `max(0, max_concurrency - active)`. -/
def freeCapacity (maxConcurrency : Option Int) (active : Nat) : Option Nat :=
  maxConcurrency.map (fun limit => (limit - Int.ofNat active).toNat)

def scanLimit : Option Nat → Nat
  | none => taskPageSize
  | some capacity => min taskPageSize (max 500 (capacity * 4))

def holdersOf (tasks : List TaskRecord) : List (String × TaskId) :=
  tasks.flatMap (fun task => task.mutexKeys.map (fun key => (key, task.id)))

/-- The page `_schedule` scans: an empty tail wraps around to the first page once. -/
def queuedPage (db : Db) (limit : Nat) (cursor : Option SortKey) :
    Option SortKey × List TaskRecord :=
  let page := db.statePage [.queued] limit cursor
  if page.isEmpty ∧ cursor.isSome then (none, db.statePage [.queued] limit none)
  else (cursor, page)

/-- The cursor saved for the next tick. -/
def Scan.saveCursor (scan : Scan) (queued : Nat) (limit : Nat) : Scan :=
  let moved := scan.last.elim scan.cursor (fun task => some task.sortKey)
  { scan with cursor := if scan.scannedAll && queued < limit then none else moved }

/-- `_schedule`. -/
def schedule (maxConcurrency : Option Int) (now : String) (monotonic : Seconds)
    (turn : Turn Scan) : Turn Scan :=
  let active := turn.state.db.allTasks activeStates
  let capacity := freeCapacity maxConcurrency active.length
  let counted := turn.call (fun scan => { scan with holders := holdersOf active, capacity })
  if capacity = some 0 then counted
  else
    let limit := scanLimit capacity
    let (cursor, queued) := queuedPage counted.state.db limit counted.state.cursor
    let paged := counted.call (fun scan => { scan with cursor })
    -- a second read, after an empty tail, is a second call
    let ready := if cursor = counted.state.cursor then paged else paged.call (fun scan => scan)
    let scanned := queued.foldl (scanTask now monotonic) ready
    scanned.set (fun scan => scan.saveCursor queued.length limit)

end LocalFlow
