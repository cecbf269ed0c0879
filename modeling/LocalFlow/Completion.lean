import LocalFlow.Service.Completing

/-! A unit that has ended ends its task in the same way whether the controller lives on or dies and
recovers, as long as the unit left its exit code. -/
namespace LocalFlow
open Transition
variable {config : Config} {s t : System} {act : Act} {id : TaskId} {recovery : Recovery}
  {evaluator : TaskRecord → Int → Evaluation} {row : TaskRecord} {record : ExitRecord}

/-- How `recover` ends a task whose unit has ended. -/
def recovered (config : Config) (evaluator : TaskRecord → Int → Evaluation) (row : TaskRecord) :
    ExitRecord → Option Ending
  | .code code => completion config evaluator row code
  | .missing =>
    if row.interruptStage = some .sigkill then completion config evaluator row 137 else vanished row
  | .unreadable => none

/-- What `wait` returns for a unit that has ended. -/
def ExitRecord.reported : ExitRecord → Option Int
  | .code exited => some exited
  | .missing => some 137
  | .unreadable => none

section Recoveries

/-- What a recovery has found out about one task: nothing but the truth. -/
def RecoveryPoint.Knows (id : TaskId) (row : TaskRecord) (record : ExitRecord) : RecoveryPoint → Prop
  | .next => True
  | .probing task completed answer => task.id = id → task.core = row.core ∧
      completedCode .systemd (.gone record) = some completed ∧ answer ≠ some true
  | .evaluating task code => task.id = id → task.core = row.core ∧ record = .code code

structure Recovery.Knows (id : TaskId) (row : TaskRecord) (record : ExitRecord) (recovery : Recovery) :
    Prop where
  restarted : recovery.hostRestarted = false
  todo : ∀ task ∈ recovery.todo, task.id = id → task.core = row.core
  point : recovery.point.Knows id row record

/-- The task is as it was, or it has ended as said. -/
inductive Rests (row : TaskRecord) (outcome : Option Ending) (current : Option TaskRecord) : Prop where
  | waits (new : TaskRecord) (found : current = some new) (same : new.core = row.core)
  | ended (ended : ∀ new, current = some new → new.state.terminal = true ∧ outcome = some new.ending)

/-- A transition that ends the task as said, or that is refused. -/
theorem Rests.moved {outcome : Option Ending} {current after : Option TaskRecord} {state : TaskState}
    {expected : List TaskState} {fields : List Field} {override : Option TaskStatus}
    (live : ∀ state ∈ expected, state.active = true) (rests : Rests row outcome current)
    (transits : Transits expected state fields override current after)
    (ends : ∀ new, current = some new → new.core = row.core → after = some new ∨
      ∃ n, after = some n ∧ n.state.terminal = true ∧ outcome = some n.ending) :
    Rests row outcome after := by
  cases rests with
  | waits new found core =>
    obtain same | ⟨n, isNew, terminal, isOutcome⟩ := ends new found core
    · exact .waits new same core
    · refine .ended (fun other found => ?_)
      rw [isNew] at found
      cases found
      exact ⟨terminal, isOutcome⟩
  | ended ended =>
    have same : after = current := by
      cases current with
      | none =>
        cases transits
        rfl
      | some old => exact transits.terminal live (ended old rfl).1
    rw [same]
    exact .ended ended

/-- The steps between the crash and the end of the walk that ends the task. -/
structure Restart (evaluator : TaskRecord → Int → Evaluation) (s : System) (act : Act) : Prop where
  stays : ∀ boot, act ≠ .reboot boot
  unfinished : ∀ fails cutoff faults, act ≠ .recover (.finish fails cutoff faults)
  judged : ∀ recovery task code evaluation, act = .recover (.evaluated evaluation) →
    s.phase = .recovering recovery → recovery.point = .evaluating task code →
    evaluation = evaluator task.core code

def Phase.Resuming (id : TaskId) (row : TaskRecord) (record : ExitRecord) : Phase → Prop
  | .down => True
  | .recovering recovery => recovery.Knows id row record
  | _ => False

/-- The controller has died and may be recovering; nothing is left of the task but its row. -/
structure Resumes (config : Config) (evaluator : TaskRecord → Int → Evaluation) (row : TaskRecord)
    (record : ExitRecord) (id : TaskId) (s : System) : Prop where
  receipt : ∀ boot, s.receipt = .recorded boot → boot = s.boot
  cell : s.cells.get id = { tree := .gone record }
  rests : Rests row (recovered config evaluator row record) (s.db.getTask id)
  phase : s.phase.Resuming id row record

theorem Rests.listed {outcome : Option Ending} {task : TaskRecord}
    (rests : Rests row outcome (s.db.getTask id)) (named : task.id = id)
    (stored : s.db.getTask task.id = some task) (active : task.state.active = true) :
    task.core = row.core := by
  rw [named] at stored
  cases rests with
  | waits new found same =>
    rw [stored] at found
    cases found
    exact same
  | ended ended =>
    obtain ⟨terminal, _⟩ := ended task stored
    rw [TaskState.active_not_terminal active] at terminal
    cases terminal

/-- The columns a recovery writes for the task end it as said. -/
theorem Resumes.columns (resumes : Resumes config evaluator row record id s) {a : RecoverAct}
    (restart : Restart evaluator s (.recover a)) (phase : s.phase = .recovering recovery)
    (knows : recovery.Knows id row record) {new : Option TaskRecord}
    (columns : RecoverColumns config s recovery a id new) :
    Rests row (recovered config evaluator row record) new := by
  have point := knows.point
  cases columns with
  | same same => exact same ▸ resumes.rests
  | settled state fields override settles transits =>
    refine resumes.rests.moved (fun _ live => mem_liveStates.mp live) transits
      (fun new found core => ?_)
    rw [found] at transits
    cases settles with
    | restarted _ _ _ _ _ impossible =>
      rw [knows.restarted] at impossible
      cases impossible
    | killed task named isPoint stage seconds =>
      rw [isPoint] at point
      obtain ⟨same, read, _⟩ := point named
      have missing : record = .missing := by cases record <;> simp_all [completedCode, Tree.record]
      have killed : row.interruptStage = some .sigkill := (stage_core same).symm.trans stage
      have asked : new.interruptStage.isSome = true := by rw [stage_core core, killed]; rfl
      rw [missing, recovered, if_pos killed, ← completion_core core]
      exact transits.cancels asked rfl rfl rfl
    | lost task named isPoint stage =>
      rw [isPoint] at point
      obtain ⟨same, read, _⟩ := point named
      have missing : record = .missing := by cases record <;> simp_all [completedCode, Tree.record]
      have graceful : row.interruptStage ≠ some .sigkill := fun killed =>
        stage ((stage_core same).trans killed)
      rw [missing, recovered, if_neg graceful, ← vanished_core core]
      exact transits.loses rfl rfl
    | evaluated task code evaluation custom named isPoint encoded bytes seconds =>
      rw [isPoint] at point
      obtain ⟨same, rfl⟩ := point named
      obtain rfl := restart.judged recovery task code evaluation rfl phase isPoint
      rw [recovered, ← completion_core core]
      exact transits.completes (same.trans core.symm) encoded

theorem Resumes.walked (systemd : config.backend = .systemd)
    (resumes : Resumes config evaluator row record id s) (knows : recovery.Knows id row record)
    {after : Recovery} (walked : Walked config s recovery after) : after.Knows id row record where
  restarted := walked.hostRestarted.trans knows.restarted
  todo task member named := by
    obtain listed | ⟨stored, active⟩ := walked.todo task member
    · exact knows.todo task listed named
    · exact resumes.rests.listed named stored active
  point := by
    have tree : (s.cells.get id).tree = .gone record := by rw [resumes.cell]
    have before := knows.point
    have walks := walked.point
    generalize after.point = reached at walks
    cases walks with
    | next => trivial
    | probe task rest completed point todo _ read =>
      intro named
      rw [named, tree, systemd] at read
      refine ⟨knows.todo task ?_ named, read, by simp⟩
      rw [todo]
      exact List.mem_cons_self
    | asked task completed point =>
      intro named
      rw [point] at before
      obtain ⟨same, read, _⟩ := before named
      refine ⟨same, read, ?_⟩
      rw [named, tree, systemd]
      simp [isRunning, Tree.owns]
    | ended task code point =>
      intro named
      rw [point] at before
      obtain ⟨same, read, _⟩ := before named
      refine ⟨same, ?_⟩
      cases record <;> simp_all [completedCode, Tree.record]

theorem Resumes.begins (resumes : Resumes config evaluator row record id s) (readable : Bool) :
    Resumes config evaluator row record id (s.recoverBegin readable) where
  receipt := resumes.receipt
  cell := resumes.cell
  rests := resumes.rests
  phase := by
    refine ⟨?_, fun task member named => ?_, trivial⟩
    · cases isReceipt : s.receipt with
      | recorded boot => cases readable <;> simp [resumes.receipt boot isReceipt]
      | missing | invalid => cases readable <;> simp
    · obtain ⟨stored, active⟩ := ownedPage_active member
      exact resumes.rests.listed named stored active

/-- The view of the task and what the controller knows stay. -/
theorem Resumes.kept (resumes : Resumes config evaluator row record id s) (host : t.host = s.host)
    (view : t.view id = s.view id) (phase : t.phase = s.phase ∨ t.phase = .down) :
    Resumes config evaluator row record id t := by
  have boot : t.boot = s.boot := congrArg Prod.fst host
  have receipt : t.receipt = s.receipt := congrArg Prod.snd host
  have rows : t.db.getTask id = s.db.getTask id := congrArg View.row view
  have cell : t.cells.get id = s.cells.get id := congrArg View.cell view
  refine ⟨fun b same => ?_, cell.trans resumes.cell, rows ▸ resumes.rests, ?_⟩
  · rw [boot]
    exact resumes.receipt b (receipt ▸ same)
  · obtain same | down := phase
    · rw [same]
      exact resumes.phase
    · rw [down]
      trivial

/-- A step of another task leaves this one alone; the task itself takes none. -/
theorem Resumes.put (resumes : Resumes config evaluator row record id s) {target : TaskId} {a : TaskAct}
    {slot : Slot} (moved : (s.slot target).taskStep config (s.moment target) target a = some slot) :
    Resumes config evaluator row record id (s.put target slot) := by
  have apart : id ≠ target := by
    rintro rfl
    rw [taskStep_gone resumes.cell] at moved
    cases moved
  exact resumes.kept rfl (view_put_other (update_taskStep (s.slot target) moved) apart) (.inl rfl)

theorem Resumes.crashed (systemd : config.backend = .systemd)
    (resumes : Resumes config evaluator row record id s) (host : t.host = s.host)
    (dies : act.survives = false) (stepped : Step config s act t) :
    Resumes config evaluator row record id t := by
  obtain ⟨down, db, cells⟩ := crash_step dies stepped
  obtain ⟨tree, cell, isTree⟩ := cells id
  refine resumes.kept host ?_ (.inr down)
  have gone : tree = .gone record := by
    rw [resumes.cell, systemd] at isTree
    obtain rfl | rfl := isTree <;> rfl
  rw [System.view, System.view, db, cell, gone, resumes.cell]

theorem Resumes.step (systemd : config.backend = .systemd)
    (resumes : Resumes config evaluator row record id s)
    (stepped : Guarded (Step config) (Restart evaluator) s act t) :
    Resumes config evaluator row record id t := by
  obtain ⟨stepped, restart⟩ := stepped
  have host : t.host = s.host := host_step restart.stays restart.unfinished stepped
  have isPhase := resumes.phase
  cases phase : s.phase with
  | serving | closing =>
    rw [phase] at isPhase
    exact absurd isPhase not_false
  | down =>
    obtain ⟨target, a, slot, _, moved, rfl⟩ | ⟨db, cells, down, _⟩ | dies | ⟨readable, rfl⟩ :=
      down_step phase stepped
    · exact resumes.put moved
    · refine resumes.kept host ?_ (.inr down)
      rw [System.view, System.view, db, cells]
    · exact resumes.crashed systemd host dies stepped
    · obtain ⟨_, rfl⟩ := recoverBegin_step stepped
      exact resumes.begins readable
  | recovering recovery =>
    rw [phase] at isPhase
    have knows : recovery.Knows id row record := isPhase
    by_cases survives : act.survives = true
    · obtain ⟨target, a, slot, _, moved, rfl⟩ | ⟨_, _, db, cells, same, _⟩ | ⟨a, rfl, recovered⟩ :=
        recovering_step phase survives stepped
      · exact resumes.put moved
      · refine resumes.kept host ?_ (.inl (same.trans phase.symm))
        rw [System.view, System.view, db, cells]
      · have unfinished : ∀ fails cutoff faults, a ≠ .finish fails cutoff faults :=
          fun _ _ _ same => restart.unfinished _ _ _ (congrArg _ same)
        have boot : t.boot = s.boot := congrArg Prod.fst host
        have receipt : t.receipt = s.receipt := congrArg Prod.snd host
        refine ⟨fun b same => ?_, ?_, ?_, ?_⟩
        · rw [boot]
          exact resumes.receipt b (receipt ▸ same)
        · obtain same | cell | ⟨task, completed, point, named⟩ :=
            recoverStep_cell unfinished recovered id
          · exact same.trans resumes.cell
          · rw [cell, resumes.cell, systemd]
            rfl
          · have asked := knows.point
            rw [point] at asked
            exact absurd rfl (asked named).2.2
        · exact resumes.columns restart phase knows (recoverStep_columns recovered unfinished id)
        · obtain down | ⟨_, fails, cutoff, faults, finished⟩ | ⟨after, isAfter, walked⟩ :=
            recoverStep_walked recovered
          · rw [down]
            trivial
          · exact absurd finished (unfinished _ _ _)
          · rw [isAfter]
            exact resumes.walked systemd knows walked
    · exact resumes.crashed systemd host (by simpa using survives) stepped

end Recoveries
section Lives
variable {slot next : Slot} {moment : Moment}

/-- What `_wait` has found out about the task: nothing but the truth, and no stop since. -/
def Waiter.Knows (row : TaskRecord) (record : ExitRecord) : Waiter → Prop
  | .probing _ _ _ => record ≠ .missing
  | .evaluating task code => task.core = row.core ∧ record.reported = some code
  | _ => True

/-- The steps of `_wait` and of `_confirm_forced_exit`. -/
def TaskAct.attends : TaskAct → Bool
  | .waitBegin | .waitReturn | .waitRaise | .waitQuery | .waitQueryRaise | .waitResume | .waitRetry
  | .waitEvaluated _ | .stop (.confirm _) => true
  | _ => false

/-- Of the steps of the task only those of `_wait` and `_confirm_forced_exit`; the controller lives.
The wait for a unit without an exit record is answered. -/
structure Attends (evaluator : TaskRecord → Int → Evaluation) (id : TaskId) (record : ExitRecord)
    (s : System) (act : Act) : Prop where
  survives : act.survives = true
  serves : (∀ a, act ≠ .recover a) ∧ ∀ a, act ≠ .closing a
  unasked : ∀ sigint sigterm, act ≠ .interrupt id sigint sigterm
  own : ∀ a, act = .task id a → a.attends = true
  answered : record = .missing → act ≠ .task id .waitRaise
  judged : ∀ evaluation task code, act = .task id (.waitEvaluated evaluation) →
    (s.cells.get id).waiter = some (.evaluating task code) → evaluation = evaluator task.core code

/-- The task waits for its end with a gone tree, or it has ended as said. -/
inductive Lives (config : Config) (evaluator : TaskRecord → Int → Evaluation) (row : TaskRecord)
    (record : ExitRecord) (view : View) : Prop where
  | waits (new : TaskRecord) (found : view.row = some new) (same : new.core = row.core)
      (gone : view.cell.tree = .gone record)
      (knows : ∀ waiter, view.cell.waiter = some waiter → waiter.Knows row record)
  | ended (ended : ∀ new, view.row = some new → new.state.terminal = true ∧
      record.reported.bind (completion config evaluator row) = some new.ending)

theorem collect_gone (systemd : config.backend = .systemd) :
    (Tree.gone record).collect config.backend = .gone record := by
  rw [systemd]
  rfl

/-- The row is read again before a result is evaluated. -/
theorem collected_knows {new : TaskRecord} {code : Int} (found : slot.db.getTask id = some new)
    (same : new.core = row.core) (reported : record.reported = some code) (waiter : Waiter)
    (isWaiter : (slot.collected id code).cell.waiter = some waiter) : waiter.Knows row record := by
  unfold Slot.collected at isWaiter
  rw [found] at isWaiter
  dsimp only at isWaiter
  split at isWaiter
  · cases isWaiter
  · cases isWaiter
    exact ⟨same, reported⟩

theorem waitStep_knows (systemd : config.backend = .systemd) {waiter : Option Waiter} {a : TaskAct}
    {new : TaskRecord} (found : slot.db.getTask id = some new) (same : new.core = row.core)
    (gone : slot.cell.tree = .gone record) (answered : record = .missing → a ≠ .waitRaise)
    (knows : ∀ w, waiter = some w → w.Knows row record)
    (stepped : slot.waitStep config moment id waiter a = some next) :
    ∀ w, next.cell.waiter = some w → w.Knows row record := by
  intro w isWaiter
  unfold Slot.waitStep at stepped
  split at stepped
  · cases stepped
    cases isWaiter
    trivial
  · split at stepped <;> cases stepped
    rename_i code answer
    refine collected_knows ?_ same ?_ w isWaiter
    · exact found
    rw [systemd, gone] at answer
    cases record <;> simp_all [waitAnswer, Tree.owns, Tree.record, ExitRecord.reported]
  · cases stepped
    unfold Slot.waitRaise at isWaiter
    dsimp only at isWaiter
    split at isWaiter
    · cases isWaiter
    · cases isWaiter
      exact fun missing => answered missing rfl
  · rename_i failures current
    cases stepped
    cases isWaiter
    have exits := knows (.probing failures current none) rfl
    exact exits
  · cases stepped
    cases isWaiter
    trivial
  · rename_i failures current running
    cases stepped
    have exits : record ≠ .missing := knows _ rfl
    unfold Slot.waitResume at isWaiter
    rw [systemd, gone] at isWaiter
    split at isWaiter
    · cases isWaiter
      trivial
    · rename_i completed read
      split at isWaiter
      · cases isWaiter
        trivial
      · split at isWaiter
        · refine collected_knows found same ?_ w isWaiter
          cases record <;> cases read
          rfl
        · refine absurd ?_ exits
          cases record <;> cases read
          rfl
  · split at stepped <;> cases stepped
    cases isWaiter
    trivial
  · cases stepped
    rw [cell_waitEvaluated] at isWaiter
    cases isWaiter
  · cases stepped

/-- The row and the waiter of a task after a step of `_wait`. -/
theorem Lives.wait (systemd : config.backend = .systemd) {a : TaskAct} {new : TaskRecord}
    (found : slot.db.getTask id = some new) (same : new.core = row.core)
    (gone : slot.cell.tree = .gone record) (answered : record = .missing → a ≠ .waitRaise)
    (knows : ∀ w, slot.cell.waiter = some w → w.Knows row record)
    (judged : ∀ evaluation task code, a = .waitEvaluated evaluation →
      slot.cell.waiter = some (.evaluating task code) → evaluation = evaluator task.core code)
    (stepped : slot.waitStep config moment id slot.cell.waiter a = some next) :
    Lives config evaluator row record (next.view id) := by
  obtain ⟨waiter, tree, isCell, isTree⟩ := (waited_waitStep stepped).cell
  have stays : next.cell.tree = .gone record := by
    rw [isCell]
    obtain rfl | rfl := isTree
    · exact gone
    · rw [gone]
      exact collect_gone systemd
  have later := waitStep_knows systemd found same gone answered knows stepped
  cases waitStep_columns stepped with
  | same rows => exact .waits new (rows.trans found) same stays later
  | lost failures current isWaiter unread =>
    -- the tree left no exit record, and the wait for it was answered
    have missing : record = .missing := by
      rw [systemd, gone] at unread
      cases record <;> simp_all [completedCode, Tree.record]
    exact absurd missing (knows _ isWaiter)
  | evaluated task code evaluation custom isWaiter isAct encoded now bytes seconds transits =>
    obtain ⟨sameTask, reported⟩ := knows _ isWaiter
    obtain rfl := judged evaluation task code isAct isWaiter
    rw [found] at transits
    obtain stayed | ⟨n, isNew, terminal, isOutcome⟩ :=
      transits.completes (sameTask.trans same.symm) encoded
    · exact .waits new stayed same stays later
    · refine .ended (fun other isOther => ?_)
      have isRow : next.db.getTask id = some other := isOther
      rw [isNew] at isRow
      cases isRow
      refine ⟨terminal, ?_⟩
      rw [reported, Option.bind_some, ← completion_core same]
      exact isOutcome

/-- A confirmed exit ends the task with the code of its record. -/
theorem Lives.stop (systemd : config.backend = .systemd) {confirm : Confirm} {a : ConfirmAct}
    {result : Slot × ConfirmResult} {new : TaskRecord} (halting : Halting (slot.db.getTask id))
    (found : slot.db.getTask id = some new) (same : new.core = row.core)
    (gone : slot.cell.tree = .gone record) (knows : ∀ w, slot.cell.waiter = some w → w.Knows row record)
    (stepped : slot.confirmStep config.backend moment id confirm a = some result) :
    Lives config evaluator row record ((Slot.confirmed result).view id) := by
  have cell : result.1.cell = slot.cell := cell_confirmStep stepped
  have stays : (Slot.confirmed result).cell.tree = .gone record ∧
      (Slot.confirmed result).cell.waiter = slot.cell.waiter := by
    obtain ⟨_, _, isNext⟩ | ⟨_, isNext⟩ := confirmed_cases result <;> rw [isNext]
    · exact ⟨by rw [Slot.cell_suspend, cell, gone], by rw [Slot.cell_suspend, cell]⟩
    · exact ⟨by rw [Slot.cell_withSequence, cell, gone], by rw [Slot.cell_withSequence, cell]⟩
  have later : ∀ w, (Slot.confirmed result).cell.waiter = some w → w.Knows row record := by
    rw [stays.2]
    exact knows
  have isRow : ((Slot.confirmed result).view id).row = result.1.db.getTask id :=
    congrFun (row_confirmed result) id
  cases confirmStep_columns stepped with
  | same rows => exact .waits new (isRow.trans (rows.trans found)) same stays.1 later
  | confirmed attempt current code point isAct exited now bytes seconds transits =>
    rw [found] at transits
    rw [gone, systemd] at exited
    have reported : record.reported = some code := by
      cases record <;> simp_all [completedCode, Tree.record, ExitRecord.reported]
    generalize result.1.db.getTask id = after at transits isRow
    cases transits with
    | same => exact .waits new isRow same stays.1 later
    | moved r status expects shown =>
      have asked : new.interruptStage.isSome = true :=
        halting new found (List.mem_singleton.mp expects)
      obtain stayed | ⟨n, isNew, terminal, isOutcome⟩ :=
        (Transits.moved new status expects shown).cancels asked rfl rfl rfl
      · exact .waits new (isRow.trans stayed) same stays.1 later
      · refine .ended (fun other isOther => ?_)
        have isAfter := isRow.symm.trans isOther
        rw [isNew] at isAfter
        cases isAfter
        refine ⟨terminal, ?_⟩
        rw [reported, Option.bind_some, ← completion_core same]
        exact isOutcome

/-- No step of a task writes the row of a task that has ended. -/
theorem taskStep_terminal {a : TaskAct} {new : TaskRecord} (found : slot.db.getTask id = some new)
    (ended : new.state.terminal = true) (stepped : slot.taskStep config moment id a = some next) :
    next.db.getTask id = some new := by
  have stays : ∀ {expected : List TaskState} {state : TaskState} {fields : List Field}
      {override : Option TaskStatus} {after : Option TaskRecord},
      (∀ state ∈ expected, state.active = true) →
      Transits expected state fields override (slot.db.getTask id) after → after = some new := by
    intro expected state fields override after live transits
    rw [found] at transits
    exact transits.terminal live ended
  cases steps_taskStep stepped with
  | tree => exact found
  | start started =>
    cases startStep_columns started with
    | same same => exact same.trans found
    | launched _ _ transits => exact stays (by simp [TaskState.active]) transits
    | failed _ _ _ _ transits => exact stays (by simp [TaskState.active]) transits
  | wait waited =>
    cases waitStep_columns waited with
    | same same => exact same.trans found
    | lost _ _ _ _ _ _ transits => exact stays (by simp [TaskState.active]) transits
    | evaluated _ _ _ _ _ _ _ _ _ _ transits => exact stays (by simp [TaskState.active]) transits
  | stop sequence _ stopped =>
    cases stopStep_columns stopped with
    | halts halts =>
      rw [found] at halts
      generalize next.db.getTask id = after at halts
      cases halts with
      | same => rfl
      | stopping r status stage live =>
        rw [TaskState.active_not_terminal (mem_liveStates.mp live)] at ended
        cases ended
    | confirmed _ _ _ _ transits => exact stays (by simp [TaskState.active]) transits

/-- What holds of a controller that lives on while the task ends. -/
structure Survives (config : Config) (evaluator : TaskRecord → Int → Evaluation) (row : TaskRecord)
    (record : ExitRecord) (id : TaskId) (s : System) : Prop where
  halting : ∀ id, Halting (s.db.getTask id)
  used : s.db.written id ≠ []
  lives : Lives config evaluator row record (s.view id)

theorem Lives.own (systemd : config.backend = .systemd) {a : TaskAct} {next : Slot}
    (survives : Survives config evaluator row record id s)
    (attends : Attends evaluator id record s (.task id a))
    (stepped : (s.slot id).taskStep config (s.moment id) id a = some next) :
    Lives config evaluator row record (next.view id) := by
  have attending := attends.own a rfl
  cases survives.lives with
  | ended ended =>
    refine .ended (fun new found => ?_)
    have isNew : next.db.getTask id = some new := found
    cases isRow : s.db.getTask id with
    | none =>
      have stored := (update_taskStep (s.slot id) stepped).stored
      have missing : (s.slot id).db.getTask id = none := isRow
      rw [isNew, missing] at stored
      cases stored
    | some old =>
      have terminal := (ended old isRow).1
      have stays := taskStep_terminal isRow terminal stepped
      rw [isNew] at stays
      cases stays
      exact ended _ isRow
  | waits new found same gone knows =>
    have stored : (s.slot id).db.getTask id = some new := found
    cases steps_taskStep stepped with
    | tree tree moved =>
      cases a <;> first | exact absurd attending Bool.false_ne_true | cases moved
    | start started =>
      unfold Slot.startStep at started
      split at started <;> first | exact absurd attending Bool.false_ne_true | cases started
    | wait waited =>
      refine Lives.wait systemd stored same gone (fun missing isAct => ?_) knows
        (fun evaluation task code isAct
        isWaiter => attends.judged evaluation task code (by rw [isAct]) isWaiter) waited
      exact attends.answered missing (by rw [isAct])
    | stop sequence isSequence stopped =>
      unfold Slot.stopStep at stopped
      split at stopped
      all_goals first
        | exact absurd attending Bool.false_ne_true
        | (obtain ⟨result, confirming, rfl⟩ := Option.map_eq_some_iff.mp stopped
           exact Lives.stop systemd (survives.halting id) stored same gone knows confirming)
        | cases stopped

theorem Lives.kept {middle : System} (survives : Survives config evaluator row record id s)
    (active : row.state.active = true) (kept : Kept config s middle id)
    (rows : t.db.getTask id = middle.db.getTask id)
    (cell : t.cells.get id = middle.cells.get id ∨
      (∃ tree, t.cells.get id = { tree } ∧
        (tree = (middle.cells.get id).tree ∨ tree = (middle.cells.get id).tree.reboot)) ∨
      t.cells.get id =
        { middle.cells.get id with waiter := some .created, sequence := (t.cells.get id).sequence }) :
    Lives config evaluator row record (t.view id) := by
  cases survives.lives with
  | ended ended =>
    refine .ended (fun new found => ?_)
    obtain ⟨old, isOld, core⟩ := kept.row (rows.symm.trans found)
    obtain ⟨terminal, isOutcome⟩ := ended old isOld
    exact ⟨core_state core ▸ terminal, by rw [isOutcome, ending_core core]⟩
  | waits new found same gone knows =>
    have stored : s.db.getTask id = some new := found
    cases kept with
    | ended ended =>
      have terminal := ended new stored
      rw [core_state same, TaskState.active_not_terminal active] at terminal
      cases terminal
    | same sameRow sameCell =>
      rw [stored, Option.map_some] at sameRow
      obtain ⟨after, isAfter, core⟩ := Option.map_eq_some_iff.mp sameRow
      have isRow : (t.view id).row = some after := rows.trans isAfter
      rw [sameCell] at cell
      have tree : (s.cells.get id).tree = .gone record := gone
      refine .waits after isRow (core.trans same) ?_ (fun waiter isWaiter => ?_)
      · change (t.cells.get id).tree = _
        obtain isCell | ⟨after, isCell, rfl | rfl⟩ | isCell := cell <;> rw [isCell]
        · exact tree
        · exact tree
        · change (s.cells.get id).tree.reboot = _
          rw [tree]
          rfl
        · exact tree
      · have held : (t.cells.get id).waiter = some waiter := isWaiter
        obtain isCell | ⟨_, isCell, _⟩ | isCell := cell <;> rw [isCell] at held
        · exact knows waiter held
        · cases held
        · cases held
          trivial

theorem Survives.step (systemd : config.backend = .systemd) (active : row.state.active = true)
    (survives : Survives config evaluator row record id s)
    (stepped : Guarded (Step config) (Attends evaluator id record) s act t) :
    Survives config evaluator row record id t := by
  obtain ⟨stepped, attends⟩ := stepped
  have changes : Changes (fun _ => True) s.db t.db := changes_step stepped (fun _ _ => trivial)
  refine ⟨halting_step survives.halting stepped, fun none => survives.used ?_, ?_⟩
  · have grows := changes.written_grows id
    rw [none] at grows
    exact List.prefix_nil.mp grows
  have elsewhere : ∀ {row' : TaskRecord}, s.db.getTask id = some row' → row'.state = .queued →
      Lives config evaluator row record (t.view id) := by
    intro row' stored queued
    cases survives.lives with
    | waits new found same =>
      have isNew : s.db.getTask id = some new := found
      rw [stored] at isNew
      cases isNew
      rw [← core_state same, queued] at active
      cases active
    | ended ended =>
      have terminal := (ended row' stored).1
      rw [queued] at terminal
      cases terminal
  cases moved_step stepped id with
  | kept kept => exact Lives.kept survives active kept rfl (.inl rfl)
  | started _ row' _ stored queued => exact elsewhere stored queued
  | enrolled row' missing unused => exact absurd unused survives.used
  | own a next isAct task view =>
    subst isAct
    rw [view]
    exact Lives.own systemd survives attends task
  | asked sigint sigterm isAct => exact absurd isAct (attends.unasked _ _)
  | crashed middle kept rows tree isTree cell =>
    refine Lives.kept survives active kept rows (.inr (.inl ⟨tree, cell, ?_⟩))
    rw [systemd] at isTree
    exact isTree
  | settled recovery a isAct => exact absurd isAct (attends.serves.1 _)
  | watched recovery task completed phase point named rows cell =>
    refine Lives.kept survives active (.of_view rfl) rows (.inr (.inr ?_))
    rw [cell]
  | closed a isAct => exact absurd isAct (attends.serves.2 _)
  | confirmed _ _ _ a _ isAct => exact absurd isAct (attends.serves.2 _)

end Lives

section Runs
variable {acts more lived : List Act} {u v : System} {boot wall : String} {receipt : Receipt}

/-- A reachable state in which the unit of an active task has ended, on the boot the controller
knows. If the controller dies there and recovers, the task ends as it would have ended by `_wait`
or `_confirm_forced_exit` where the unit left its exit code or had been sent SIGKILL; otherwise
`recover` gives the task up, where `_wait` reports 137. -/
theorem completion_transparent (systemd : config.backend = .systemd)
    (run : Run (Step config) (.initial boot wall receipt) acts s) (found : s.db.getTask id = some row)
    (active : row.state.active = true) (gone : (s.cells.get id).tree = .gone record)
    (sameBoot : ∀ boot, s.receipt = .recorded boot → boot = s.boot)
    (knows : ∀ waiter, (s.cells.get id).waiter = some waiter → waiter.Knows row record)
    (restarted : Run (Guarded (Step config) (Restart evaluator)) (s.crash config) more u)
    {new : TaskRecord} (recovers : u.db.getTask id = some new) (ended : new.state.terminal = true)
    (lives : Run (Guarded (Step config) (Attends evaluator id record)) s lived v)
    {live : TaskRecord} (attended : v.db.getTask id = some live)
    (finished : live.state.terminal = true) :
    (∀ code, record = .code code → new.ending = live.ending) ∧
    (record = .missing → row.interruptStage = some .sigkill → new.ending = live.ending) ∧
    (record = .missing → row.interruptStage ≠ some .sigkill →
      vanished row = some new.ending ∧ completion config evaluator row 137 = some live.ending) := by
  have start : Resumes config evaluator row record id (s.crash config) := by
    refine ⟨sameBoot, ?_, .waits row found rfl, trivial⟩
    rw [get_crash, gone, systemd]
    rfl
  have resumes : Resumes config evaluator row record id u :=
    restarted.invariant (fun resumes stepped => resumes.step systemd stepped) start
  have outcome : recovered config evaluator row record = some new.ending := by
    cases resumes.rests with
    | waits other same core =>
      rw [recovers] at same
      cases same
      rw [core_state core, TaskState.active_not_terminal active] at ended
      cases ended
    | ended all => exact (all new recovers).2
  have written : s.db.written id ≠ [] := fun none => by
    have current := ((sound_run run).agrees id).current row found
    simp [none] at current
  have survives : Survives config evaluator row record id v :=
    lives.invariant (fun survives stepped => survives.step systemd active stepped)
      ⟨halting_run run, written, .waits row found rfl gone knows⟩
  have reported : record.reported.bind (completion config evaluator row) = some live.ending := by
    cases survives.lives with
    | waits other same core =>
      have isLive : v.db.getTask id = some other := same
      rw [attended] at isLive
      cases isLive
      rw [core_state core, TaskState.active_not_terminal active] at finished
      cases finished
    | ended all => exact (all live attended).2
  refine ⟨?_, ?_, ?_⟩
  · rintro code rfl
    exact Option.some.inj (outcome.symm.trans reported)
  · rintro rfl killed
    rw [recovered, if_pos killed] at outcome
    exact Option.some.inj (outcome.symm.trans reported)
  · rintro rfl graceful
    rw [recovered, if_neg graceful] at outcome
    exact ⟨outcome, reported⟩

/-- A unit is waited for until it ends with an exit record. -/
def unitRun (record : ExitRecord) : List Act :=
  firstStart ++ [.submit "a" (.keyed []), .tick "" none, .task "a" .startBegin, .task "a" .accept,
    .task "a" (.startReturn 1), .task "a" .waitBegin, .task "a" (.exit record)]

def walkToEnd : List Act :=
  [.recoverBegin true, .recover .next, .recover .query, .recover .resume,
    .recover (.evaluated .nothing)]

def walkToLoss : List Act := [.recoverBegin true, .recover .next, .recover .query, .recover .resume]

def waitToEnd : List Act := [.task "a" .waitReturn, .task "a" (.waitEvaluated .nothing)]

/-- A unit that is waited for. -/
def System.waits (s : System) (id : TaskId) : Bool :=
  match (s.cells.get id).waiter with
  | some (.waiting _) => true
  | _ => false

theorem restart_quiet {acts : List Act} (quiet : ∀ act ∈ acts, act = .recoverBegin true ∨
    act = .recover .next ∨ act = .recover .query ∨ act = .recover .resume ∨
    act = .recover (.evaluated .nothing)) :
    ∀ act ∈ acts, ∀ s, Restart (fun _ _ => .nothing) s act := by
  intro act member s
  obtain rfl | rfl | rfl | rfl | rfl := quiet act member
  all_goals
    refine ⟨by simp, by simp, ?_⟩
    intro recovery task code evaluation isAct _ _
    cases isAct
  rfl

theorem completion_transparent_failed : ∃ s u v row new live,
    Run (Step (.plain .systemd)) (.initial "boot" "2026" .missing) (unitRun (.code 3)) s ∧
    Run (Step (.plain .systemd)) (s.crash (.plain .systemd)) walkToEnd u ∧
    Run (Step (.plain .systemd)) s waitToEnd v ∧
    s.db.getTask "a" = some row ∧ row.state = .running ∧ u.db.getTask "a" = some new ∧
    v.db.getTask "a" = some live ∧ live.state = .failed ∧ new.ending = live.ending := by
  have evaluated : (steps (.plain .systemd) (.initial "boot" "2026" .missing) (unitRun (.code 3))).any
      (fun s => (s.db.getTask "a").any (fun row => row.state = .running) &&
        (s.cells.get "a").tree = .gone (.code 3) && s.boot = "boot" &&
        s.receipt = .recorded "boot" && s.waits "a" &&
        (steps (.plain .systemd) (s.crash (.plain .systemd)) walkToEnd).any (fun u =>
          (u.db.getTask "a").any (fun new => new.state.terminal)) &&
        (steps (.plain .systemd) s waitToEnd).any (fun v =>
          (v.db.getTask "a").any (fun live => live.state = .failed))) = true := by
    decide +kernel
  obtain ⟨s, ran, facts⟩ := Option.any_eq_true _ _ |>.mp evaluated
  simp only [Bool.and_eq_true] at facts
  obtain ⟨⟨⟨⟨⟨⟨stored, gone⟩, boot⟩, receipt⟩, waits⟩, restarts⟩, lives⟩ := facts
  obtain ⟨row, found, runs⟩ := Option.any_eq_true _ _ |>.mp stored
  obtain ⟨u, restarted, last⟩ := Option.any_eq_true _ _ |>.mp restarts
  obtain ⟨new, recovers, ended⟩ := Option.any_eq_true _ _ |>.mp last
  obtain ⟨v, lived, final⟩ := Option.any_eq_true _ _ |>.mp lives
  obtain ⟨live, attended, fails⟩ := Option.any_eq_true _ _ |>.mp final
  have running : row.state = .running := of_decide_eq_true runs
  have failed : live.state = .failed := of_decide_eq_true fails
  have run := steps_run ran
  have walk := guarded_run (restart_quiet (by simp [walkToEnd])) restarted
  have wait : Run (Guarded (Step (.plain .systemd)) (Attends (fun _ _ => .nothing) "a" (.code 3))) s
      waitToEnd v := by
    refine guarded_run (fun act member s => ?_) lived
    simp only [waitToEnd, List.mem_cons, List.not_mem_nil, or_false] at member
    obtain rfl | rfl := member
    · refine ⟨rfl, by simp, by simp, fun a isAct => ?_, by simp, by simp⟩
      cases isAct
      rfl
    · refine ⟨rfl, by simp, by simp, fun a isAct => ?_, by simp, fun evaluation task code isAct _ => ?_⟩
      · cases isAct
        rfl
      · cases isAct
        rfl
  have sameBoot : ∀ recorded, s.receipt = .recorded recorded → recorded = s.boot := by
    intro recorded isReceipt
    rw [of_decide_eq_true receipt] at isReceipt
    rw [← Receipt.recorded.inj isReceipt, of_decide_eq_true boot]
  have knows : ∀ waiter, (s.cells.get "a").waiter = some waiter → waiter.Knows row (.code 3) := by
    intro waiter isWaiter
    unfold System.waits at waits
    rw [isWaiter] at waits
    split at waits
    · rename_i same
      cases same
      trivial
    · cases waits
  refine ⟨s, u, v, row, new, live, run, walk.unguarded, wait.unguarded, found, running,
    recovers, attended,
    failed, ?_⟩
  exact (completion_transparent rfl run found (by rw [running]; rfl)
    (of_decide_eq_true gone) sameBoot knows
    walk recovers ended wait attended (by rw [failed]; rfl)).1 3 rfl

/-- A unit that is killed without an exit record: `_wait` fails the task with 137, `recover` gives
it up. -/
theorem lost_after_restart : ∃ s u v row new live,
    Run (Step (.plain .systemd)) (.initial "boot" "2026" .missing) (unitRun .missing) s ∧
    Run (Step (.plain .systemd)) (s.crash (.plain .systemd)) walkToLoss u ∧
    Run (Step (.plain .systemd)) s waitToEnd v ∧
    s.db.getTask "a" = some row ∧ row.state = .running ∧
    u.db.getTask "a" = some new ∧ new.state = .lost ∧ new.exitCode = none ∧
    v.db.getTask "a" = some live ∧ live.state = .failed ∧ live.exitCode = some 137 := by
  have evaluated : (steps (.plain .systemd) (.initial "boot" "2026" .missing) (unitRun .missing)).any
      (fun s => (s.db.getTask "a").any (fun row => row.state = .running) &&
        (steps (.plain .systemd) (s.crash (.plain .systemd)) walkToLoss).any (fun u =>
          (u.db.getTask "a").any (fun new => new.state = .lost && new.exitCode = none)) &&
        (steps (.plain .systemd) s waitToEnd).any (fun v =>
          (v.db.getTask "a").any (fun live => live.state = .failed && live.exitCode = some 137))) =
            true := by
    decide +kernel
  obtain ⟨s, ran, facts⟩ := Option.any_eq_true _ _ |>.mp evaluated
  simp only [Bool.and_eq_true] at facts
  obtain ⟨⟨stored, restarts⟩, lives⟩ := facts
  obtain ⟨row, found, runs⟩ := Option.any_eq_true _ _ |>.mp stored
  obtain ⟨u, restarted, last⟩ := Option.any_eq_true _ _ |>.mp restarts
  obtain ⟨new, recovers, ended⟩ := Option.any_eq_true _ _ |>.mp last
  obtain ⟨v, lived, final⟩ := Option.any_eq_true _ _ |>.mp lives
  obtain ⟨live, attended, fails⟩ := Option.any_eq_true _ _ |>.mp final
  obtain ⟨lost, unknown⟩ := Bool.and_eq_true _ _ |>.mp ended
  obtain ⟨failed, killed⟩ := Bool.and_eq_true _ _ |>.mp fails
  exact ⟨s, u, v, row, new, live, steps_run ran, steps_run restarted, steps_run lived, found,
    of_decide_eq_true runs, recovers, of_decide_eq_true lost, of_decide_eq_true unknown, attended,
    of_decide_eq_true failed, of_decide_eq_true killed⟩

end Runs
end LocalFlow
