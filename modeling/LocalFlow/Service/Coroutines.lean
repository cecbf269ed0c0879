import LocalFlow.Executor
import LocalFlow.Scheduler
import LocalFlow.Library.Dict

/-! The coroutines the controller keeps for one task, each stopped at the `await` it is suspended
in. A step resumes one of them and runs it to its next `await`. -/
namespace LocalFlow

/-- `_start`: created, or inside `executor.start` with the task it read. -/
inductive Starter where
  | created
  | launching (task : TaskRecord)

/-- `_wait`, with the number of failed waits. The answer to the question whether the process tree is
running may be older than the step that uses it. -/
inductive Waiter where
  | created
  | waiting (failures : Nat)
  | probing (failures : Nat) (current : TaskRecord) (answer : Option Bool)
  | backoff (failures : Nat) (wake : Seconds)
  | evaluating (task : TaskRecord) (code : Int)

/-- The local variables of `_wait_stop_action`, asleep until `wake`. -/
structure Poll where
  deadline : Seconds
  hardDeadline : Seconds
  offset : Nat
  tail : List UInt8
  wake : Seconds

/-- `_confirm_forced_exit`. -/
inductive Confirm where
  | sleeping (attempt : Nat) (wake : Seconds)
  | probing (attempt : Nat) (current : TaskRecord) (answer : Option Bool)
  | killing (attempt : Nat)

/-- `_interrupt_sequence`. A coroutine that is cancelled before its first step never reaches its
`finally` and stays in the dictionary as `ended`. -/
inductive SequencePoint where
  | created (sigintGrace sigtermGrace : Grace)
  | applying (actions : List StopAction) (index : Nat) (offset : Nat) (started : Seconds)
  | polling (actions : List StopAction) (index : Nat) (poll : Poll)
  | settling (left : Nat) (wake : Seconds)
  | killing
  | confirming (confirm : Confirm)
  | cancelled (entered : Bool)
  | ended

/-- An entry of `_interrupts` and of `_interrupt_advances`: the coroutine and its event. -/
structure Sequence where
  point : SequencePoint
  advance : Bool := false

/-- What exists for one task besides its row. -/
structure Cell where
  tree : Tree := .idle
  starter : Option Starter := none
  waiter : Option Waiter := none
  sequence : Option Sequence := none

instance : Inhabited Cell := ⟨{}⟩

/-- The row store and the cell of one task. -/
structure Slot where
  db : Db
  cell : Cell

/-- What a step can read besides: the clocks and the task's own output. -/
structure Moment where
  now : String
  monotonic : Seconds
  output : Option (List UInt8)

def Moment.logSize (moment : Moment) : Nat := moment.output.elim 0 List.length

/-- `_elapsed`. -/
def elapsed (moment : Moment) (task : TaskRecord) : Option Seconds :=
  task.startedMonotonic.bind (fun started =>
    if moment.monotonic < started then none else some (moment.monotonic - started))

/-- What the result evaluator of a plugin did. Custom data that JSON cannot encode is `none`. -/
inductive Evaluation where
  | nothing
  | raised (error : String)
  | result (status : TaskStatus) (custom : Option Object)

def TaskStatus.dump (status : TaskStatus) : Json :=
  .obj [("key", .str status.key), ("label", .str status.label), ("tone", .str status.tone),
    ("finished", .bool status.finished)]

structure Verdict where
  statusOverride : Option TaskStatus
  custom : Option Object
  failed : Bool := false

/-- `_evaluate_result`. -/
def evaluateResult (configured : Bool) (task : TaskRecord) (code : Int) (evaluation : Evaluation) :
    Verdict :=
  if task.interruptStage.isSome || !configured then ⟨none, some task.custom, false⟩
  else match evaluation with
    | .nothing => ⟨none, some task.custom, false⟩
    | .raised error =>
      ⟨some ⟨"evaluation_error", "结果解析失败", "danger", true⟩,
        some (Json.assign task.custom "result_evaluation_error" (.str error)), true⟩
    | .result status custom =>
      if code ≠ 0 ∧ status.tone = "success" then
        ⟨some ⟨"execution_failed", "进程失败", "danger", true⟩,
          custom.map (fun fields => Json.assign fields "reported_result_status" status.dump), false⟩
      else ⟨some status, custom, false⟩

end LocalFlow
