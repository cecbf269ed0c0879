import LocalFlow.Service.Start

/-! The steps of `interrupt`, `_interrupt_sequence` and `_confirm_forced_exit` for one task. -/
namespace LocalFlow

/-- The strategy used, and frozen, where a task has none. -/
def defaultStop (sigintGrace sigtermGrace : Grace) : StopStrategy :=
  ⟨[.default .sigint sigintGrace, .default .sigterm sigtermGrace], by simp⟩

/-- `_interrupted_action_index`. -/
def interruptedActionIndex : Option InterruptStage → Nat
  | some (.stop index _) => index
  | _ => 0

def utf8 (text : String) : List UInt8 := text.toUTF8.toList

/-- Why `_confirm_forced_exit` stopped for now. -/
inductive ConfirmResult where
  | awaiting (confirm : Confirm)
  | returned
  | raised

/-- What a coroutine in `_confirm_forced_exit` is resumed with. -/
inductive ConfirmAct where
  | wake | query | queryRaise | resume | killed | killRaise
  deriving DecidableEq

/-- What a coroutine in `_interrupt_sequence` is resumed with. -/
inductive StopAct where
  | begin | applied | applyRaise | poll | settle | killed | killRaise
  | confirm (act : ConfirmAct)
  | cancelDone
  deriving DecidableEq

namespace Slot
variable (backend : Backend) (moment : Moment) (id : TaskId) (slot : Slot)

def withSequence (sequence : Option Sequence) : Slot :=
  { slot with cell := { slot.cell with sequence } }

/-- Suspend `_interrupt_sequence` at a point; its event stays as it is. -/
def suspend (point : SequencePoint) : Slot :=
  slot.withSequence (some ⟨point, slot.cell.sequence.any Sequence.advance⟩)

/-- `advance.clear()`. -/
def clearAdvance : Slot :=
  slot.withSequence (slot.cell.sequence.map (fun sequence => { sequence with advance := false }))

/-- `_start_interrupt`. -/
def startInterrupt (sigintGrace sigtermGrace : Grace) : Slot :=
  slot.withSequence (some ⟨.created sigintGrace sigtermGrace, false⟩)

/-- `interrupt`, and whether it raised. -/
def interrupt (sigintGrace sigtermGrace : Grace) : Slot × Bool :=
  match slot.db.getTask id with
  | none => (slot, true)
  | some task =>
    if task.state = .queued then
      let (db, reply) := slot.db.transition moment.now id [.queued] .cancelled
        [.endedAt moment.now, .interruptStage .queued]
      ({ slot with db }, reply = .raised)
    else if (task.state = .starting ∨ task.state = .running) ∧ slot.cell.sequence.isNone then
      let frozen := if task.stop.isNone then
        slot.db.snapshotStop id (defaultStop sigintGrace sigtermGrace) else slot.db
      match frozen.transition moment.now id [.starting, .running] .stopping
          [.interruptStage .requested] with
      | (db, .raised) => ({ slot with db }, true)
      | (db, _) => ({ slot with db }.startInterrupt sigintGrace sigtermGrace, false)
    else match slot.cell.sequence with
      | none => (slot, false)
      | some sequence =>
        ((slot.event moment id "task.interrupt_advanced").withSequence
          (some { sequence with advance := true }), false)

/-- The last stage of the sequence is recorded before its signal is sent. -/
def force : Slot :=
  match slot.db.transition moment.now id liveStates .stopping [.interruptStage .sigkill] with
  | (db, .raised) => { slot with db }.withSequence none
  | (db, _) => { slot with db }.suspend .killing

/-- The wait for an exit after the last graceful action: ten more looks at the row. -/
def settle (left : Nat) : Slot :=
  match slot.db.getTask id with
  | none => slot.withSequence none
  | some current =>
    if current.state.terminal then slot.withSequence none
    else match left with
      | 0 => slot.force moment id
      | left + 1 => slot.suspend (.settling left (moment.monotonic + 1 / 20))

/-- The sequence turns to the action at an index: its stage is recorded before it is applied. -/
def nextAction (actions : List StopAction) (index : Nat) : Slot :=
  match actions[index]? with
  | none => slot.settle moment id 10
  | some action =>
    match slot.db.getTask id with
    | none => slot.withSequence none
    | some current =>
      if current.state.terminal then slot.withSequence none
      else
        match slot.db.transition moment.now id liveStates .stopping
            [.interruptStage (.stop index action.call.kind)] with
        | (db, .raised) => { slot with db }.withSequence none
        | (db, _) =>
          { slot with db }.suspend (.applying actions index moment.logSize moment.monotonic)

/-- The first step of `_interrupt_sequence`. -/
def stopBegin (sigintGrace sigtermGrace : Grace) : Slot :=
  match slot.db.getTask id with
  | none => slot.withSequence none
  | some task =>
    slot.nextAction moment id (task.stop.getD (defaultStop sigintGrace sigtermGrace)).actions
      (interruptedActionIndex task.interruptStage)

/-- `read_log` from the poll's offset, and whether the awaited text has appeared. -/
def readOutput (action : StopAction) (poll : Poll) : Poll × Bool :=
  if action.outputContains.isNone && !action.extendTimeoutOnOutput then (poll, false)
  else
    let chunk := ((moment.output.getD []).drop poll.offset).take 65536
    if chunk = [] then (poll, false)
    else
      let deadline := if action.extendTimeoutOnOutput then
        min (moment.monotonic + action.timeoutSeconds) poll.hardDeadline else poll.deadline
      let moved := { poll with deadline, offset := poll.offset + chunk.length }
      match action.outputContains with
      | none => (moved, false)
      | some text =>
        let needle := utf8 text
        let seen := poll.tail ++ chunk
        let tail := seen.drop (seen.length - max (needle.length * 2) 1024)
        ({ moved with tail }, decide (needle <:+: tail))

/-- The loop of `_wait_stop_action`. -/
def pollAction (actions : List StopAction) (index : Nat) (action : StopAction) (poll : Poll) : Slot :=
  if moment.monotonic < min poll.deadline poll.hardDeadline then
    match slot.db.getTask id with
    | none => slot.withSequence none
    | some row =>
      if row.state.terminal then slot.nextAction moment id actions (index + 1)
      else if slot.cell.sequence.any Sequence.advance then
        slot.clearAdvance.nextAction moment id actions (index + 1)
      else
        let (poll, found) := readOutput moment action poll
        if found then slot.nextAction moment id actions (index + 1)
        else slot.suspend
          (.polling actions index { poll with wake := moment.monotonic + 1 / 20 })
  else slot.nextAction moment id actions (index + 1)

/-- `_apply_stop_action` returned; `_wait_stop_action` begins. -/
def stopApplied (actions : List StopAction) (index : Nat) (action : StopAction) (offset : Nat)
    (started : Seconds) : Slot :=
  let remaining := max 0 (action.timeoutSeconds - (moment.monotonic - started))
  let deadline := moment.monotonic + remaining
  let inApply := max 0 (action.timeoutSeconds - remaining)
  let hardDeadline := action.maxTimeoutSeconds.elim deadline
    (fun most => moment.monotonic + max 0 (most - inApply))
  slot.clearAdvance.pollAction moment id actions index action ⟨deadline, hardDeadline, offset, [], 0⟩

/-- `_apply_stop_action` raised: the failure is recorded and the next action follows. -/
def stopApplyRaise (actions : List StopAction) (index : Nat) : Slot :=
  (slot.event moment id "task.stop_action_error").nextAction moment id actions (index + 1)

/-- The head of the loop of `_confirm_forced_exit`. -/
def confirmLoop (attempt : Nat) : ConfirmResult :=
  match slot.db.getTask id with
  | none => .raised
  | some current =>
    if current.state.terminal then .returned
    else .awaiting (.sleeping attempt (moment.monotonic + min (2 + attempt) 10))

def confirmWake (attempt : Nat) : ConfirmResult :=
  match slot.db.getTask id with
  | none => .raised
  | some current =>
    if current.state.terminal then .returned else .awaiting (.probing attempt current none)

/-- The tree still runs, or it left no exit code: the signal is repeated. -/
def confirmRetry (attempt : Nat) : Slot × ConfirmResult :=
  (slot.event moment id "task.force_cleanup_retry", .awaiting (.killing (attempt + 1)))

def confirmProbeError (attempt : Nat) : Slot × ConfirmResult :=
  (slot.event moment id "task.exit_confirmation_error").confirmRetry moment id attempt

def confirmResume (attempt : Nat) (current : TaskRecord) (running : Bool) : Slot × ConfirmResult :=
  match completedCode backend slot.cell.tree with
  | none => slot.confirmProbeError moment id attempt
  | some none => slot.confirmRetry moment id attempt
  | some (some code) =>
    if running then slot.confirmRetry moment id attempt
    else
      let (db, reply) := slot.db.transition moment.now id [.stopping] .cancelled
        [.endedAt moment.now, .exitCode code, .logSize moment.logSize,
          .elapsedSeconds (elapsed moment current)]
      ({ slot with db }, if reply = .raised then .raised else .returned)

/-- One step of `_confirm_forced_exit`; `none` when it is not suspended there. -/
def confirmStep (confirm : Confirm) (act : ConfirmAct) : Option (Slot × ConfirmResult) :=
  match confirm, act with
  | .sleeping attempt wake, .wake =>
    if wake ≤ moment.monotonic then some (slot, slot.confirmWake id attempt) else none
  | .probing attempt current none, .query => some (slot, .awaiting (.probing attempt current
      (some (isRunning backend current.executorRef slot.cell.tree))))
  | .probing attempt _ none, .queryRaise => some (slot.confirmProbeError moment id attempt)
  | .probing attempt current (some running), .resume =>
    some (slot.confirmResume backend moment id attempt current running)
  | .killing attempt, .killed => some (slot, slot.confirmLoop moment id attempt)
  | .killing _, .killRaise => some (slot, .raised)
  | _, _ => none

/-- The sequence after a step of its confirmation. -/
def confirmed (result : Slot × ConfirmResult) : Slot :=
  match result.2 with
  | .awaiting confirm => result.1.suspend (.confirming confirm)
  | .returned | .raised => result.1.withSequence none

/-- One step of `_interrupt_sequence`; `none` when it is not suspended there. -/
def stopStep (point : SequencePoint) (act : StopAct) : Option Slot :=
  match point, act with
  | .created sigintGrace sigtermGrace, .begin =>
    some (slot.stopBegin moment id sigintGrace sigtermGrace)
  | .applying actions index offset started, .applied =>
    actions[index]?.map (fun action =>
      slot.stopApplied moment id actions index action offset started)
  | .applying actions index _ _, .applyRaise =>
    actions[index]?.map (fun _ => slot.stopApplyRaise moment id actions index)
  | .polling actions index poll, .poll =>
    if poll.wake ≤ moment.monotonic then
      actions[index]?.map (fun action => slot.pollAction moment id actions index action poll)
    else none
  | .settling left wake, .settle =>
    if wake ≤ moment.monotonic then some (slot.settle moment id left) else none
  | .killing, .killed => some (confirmed (slot, slot.confirmLoop moment id 0))
  | .killing, .killRaise => some (slot.withSequence none)
  | .confirming confirm, .confirm act =>
    (slot.confirmStep backend moment id confirm act).map confirmed
  | .cancelled entered, .cancelDone =>
    some (slot.withSequence (if entered then none else some ⟨.ended, false⟩))
  | _, _ => none

end Slot

/-- `Task.cancel` of an entry of `_interrupts`. -/
def Sequence.cancel (sequence : Sequence) : Sequence :=
  match sequence.point with
  | .created _ _ => { sequence with point := .cancelled false }
  | .cancelled entered => { sequence with point := .cancelled entered }
  | .ended => sequence
  | _ => { sequence with point := .cancelled true }

end LocalFlow
