import LocalFlow.Service.System
import LocalFlow.Library.Run

/-! One step of the whole system: a coroutine is resumed, the scheduler loop takes a turn, a request
arrives, or the world outside the controller moves. -/
namespace LocalFlow

/-- What happens to one task: its launch and its processes move, or one of its coroutines is
resumed. -/
inductive TaskAct where
  | accept | refuse
  | publish (record : ExitRecord)
  | exit (record : ExitRecord)
  | startBegin
  | startReturn (pid : Nat)
  | startRaise
  | waitBegin | waitReturn | waitRaise | waitQuery | waitQueryRaise | waitResume | waitRetry
  | waitEvaluated (evaluation : Evaluation)
  | stop (act : StopAct)

inductive Act where
  | task (id : TaskId) (act : TaskAct)
  | submit (id : TaskId) (draft : TaskCreate)
  | submitBatch (batchId template : String) (values : Object) (tasks : List (TaskId × TaskCreate))
      (idempotency : Option (String × String × String × BatchResponse))
  | interrupt (id : TaskId) (sigintGrace sigtermGrace : Grace)
  | output (id : TaskId) (bytes : List UInt8)
  | clock (wall : String) (monotonic : Seconds)
  | tick (cutoff : String) (faults : Option Nat)
  | loopEnd
  | crash
  | reboot (boot : String)
  | recoverBegin (readable : Bool)
  | recover (act : RecoverAct)
  | shutdown (timeout : Seconds)
  | closing (act : ShutdownAct)

/-- A launch that has been answered. -/
def Tree.answered : Tree → Bool
  | .alive _ | .gone _ => true
  | _ => false

/-- A launch that ended without a process. -/
def Tree.failed : Tree → Bool
  | .refused | .gone _ => true
  | _ => false

def ExitRecord.isCode : ExitRecord → Bool
  | .code _ => true
  | _ => false

namespace Slot
variable (config : Config) (moment : Moment) (id : TaskId) (slot : Slot)

/-- The launch and the processes of a task. -/
def treeStep : TaskAct → Option Tree
  | .accept => if slot.cell.tree = .requested then some (.alive .missing) else none
  | .refuse => if slot.cell.tree = .requested then some .refused else none
  | .publish record => if config.backend = .systemd && slot.cell.tree.owns then
      some (.alive record) else none
  | .exit record => if (config.backend = .systemd || record.isCode) && slot.cell.tree.owns then
      some (.gone record) else none
  | _ => none

/-- `_start`. -/
def startStep : Option Starter → TaskAct → Option Slot
  | some .created, .startBegin => some (slot.startBegin id)
  | some (.launching _), .startReturn pid => if slot.cell.tree.answered then
      some (slot.startReturn config.backend moment id config.namespaceHash pid) else none
  | some (.launching task), .startRaise => if slot.cell.tree.failed then
      some (slot.startRaise config.backend moment id task) else none
  | _, _ => none

/-- `_wait`. -/
def waitStep : Option Waiter → TaskAct → Option Slot
  | some .created, .waitBegin => some (slot.withWaiter (some (.waiting 0)))
  | some (.waiting _), .waitReturn =>
    match waitAnswer config.backend slot.cell.tree with
    | .exited code => some
        ((slot.withTree (slot.cell.tree.collect config.backend)).collected id code)
    | _ => none
  | some (.waiting failures), .waitRaise => some (slot.waitRaise config.backend moment id failures)
  | some (.probing failures current none), .waitQuery => some (slot.withWaiter (some
      (.probing failures current
        (some (isRunning config.backend current.executorRef slot.cell.tree)))))
  | some (.probing failures _ none), .waitQueryRaise => some (slot.waitProbeError moment id failures)
  | some (.probing failures current (some running)), .waitResume =>
    some (slot.waitResume config.backend moment id failures current running)
  | some (.backoff failures wake), .waitRetry => if wake ≤ moment.monotonic then
      some (slot.withWaiter (some (.waiting failures))) else none
  | some (.evaluating task code), .waitEvaluated evaluation => some (slot.waitEvaluated moment id task
      code (evaluateResult config.hasEvaluator task code evaluation))
  | _, _ => none

def taskStep (act : TaskAct) : Option Slot :=
  match act with
  | .accept | .refuse | .publish _ | .exit _ => (slot.treeStep config act).map slot.withTree
  | .startBegin | .startReturn _ | .startRaise => slot.startStep config moment id slot.cell.starter act
  | .waitBegin | .waitReturn | .waitRaise | .waitQuery | .waitQueryRaise | .waitResume | .waitRetry
  | .waitEvaluated _ => slot.waitStep config moment id slot.cell.waiter act
  | .stop act => slot.cell.sequence.bind (fun sequence =>
      slot.stopStep config.backend moment id sequence.point act)

end Slot

/-- One step; `none` when the act is not possible. -/
def step (config : Config) (s : System) (act : Act) : Option System :=
  match act, s.phase with
  | .task id act, _ => ((s.slot id).taskStep config (s.moment id) id act).map (s.put id)
  | .submit id draft, .serving => s.submit id draft
  | .submitBatch batchId template values tasks idempotency, .serving =>
    s.submitBatch batchId template values tasks idempotency
  | .interrupt id sigintGrace sigtermGrace, .serving =>
    some (s.interrupt id sigintGrace sigtermGrace)
  | .output id bytes, _ => some (s.output id bytes)
  | .clock wall monotonic, _ =>
    if s.monotonic ≤ monotonic then some { s with wall, monotonic } else none
  | .tick cutoff faults, .serving =>
    if s.loop = .live then some (s.tick config cutoff faults) else none
  | .loopEnd, .closing _ => if s.loop = .live then some { s with loop := .finished } else none
  | .crash, _ => some (s.crash config)
  | .reboot boot, _ => some (s.reboot config boot)
  | .recoverBegin readable, .down => some (s.recoverBegin readable)
  | .recover act, .recovering recovery => s.recoverStep config recovery act
  | .shutdown timeout, .serving => some (s.closing (.awaitingScheduler timeout))
  | .closing act, .closing shutdown => s.shutdownStep config shutdown act
  | _, _ => none

def Step (config : Config) (s : System) (act : Act) (t : System) : Prop := step config s act = some t

/-- A fresh installation before its first start. -/
def System.initial (boot wall : String) (receipt : Receipt) : System where
  db := .empty
  cells := .empty
  logs := []
  wall
  monotonic := 0
  boot
  receipt
  phase := .down
  loop := .absent
  queueCursor := none
  lastCleanup := 0

/-- Several steps in a row. -/
def steps (config : Config) : System → List Act → Option System
  | s, [] => some s
  | s, act :: rest => (step config s act).bind (fun t => steps config t rest)

theorem steps_run {config : Config} {s t : System} {acts : List Act}
    (stepped : steps config s acts = some t) : Transition.Run (Step config) s acts t := by
  induction acts generalizing s with
  | nil =>
    cases stepped
    exact .nil _
  | cons act rest ih =>
    obtain ⟨middle, first, later⟩ := Option.bind_eq_some_iff.mp stepped
    exact .cons first (ih later)

theorem guarded_run {config : Config} {s t : System} {acts : List Act} {guard : System → Act → Prop}
    (guarded : ∀ act ∈ acts, ∀ s, guard s act) (stepped : steps config s acts = some t) :
    Transition.Run (Transition.Guarded (Step config) guard) s acts t := by
  induction acts generalizing s with
  | nil =>
    cases stepped
    exact .nil _
  | cons act rest ih =>
    obtain ⟨middle, first, later⟩ := Option.bind_eq_some_iff.mp stepped
    exact .cons ⟨first, guarded act List.mem_cons_self s⟩
      (ih (fun other member => guarded other (List.mem_cons_of_mem _ member)) later)

/-- Several steps in a row, each of them checked before it is taken. -/
def checkedSteps (config : Config) (check : System → Act → Bool) : System → List Act → Option System
  | s, [] => some s
  | s, act :: rest =>
    if check s act then (step config s act).bind (fun t => checkedSteps config check t rest) else none

theorem checked_run {config : Config} {s t : System} {acts : List Act} {check : System → Act → Bool}
    {guard : System → Act → Prop} (sound : ∀ s act, check s act = true → guard s act)
    (stepped : checkedSteps config check s acts = some t) :
    Transition.Run (Transition.Guarded (Step config) guard) s acts t := by
  induction acts generalizing s with
  | nil =>
    cases stepped
    exact .nil _
  | cons act rest ih =>
    unfold checkedSteps at stepped
    split at stepped
    · rename_i passed
      obtain ⟨middle, first, later⟩ := Option.bind_eq_some_iff.mp stepped
      exact .cons ⟨first, sound s act passed⟩ (ih later)
    · cases stepped

/-- A controller with two places and no result evaluator. -/
def Config.plain (backend : Backend) : Config where
  backend
  namespaceHash := "0123456789ab"
  maxConcurrency := some 2
  cleanupInterval := 3600
  logLimit := 1048576
  hasEvaluator := false

/-- The first start of a controller, with nothing to recover. -/
def firstStart : List Act := [.recoverBegin true, .recover (.finish false "" none)]

end LocalFlow
