import LocalFlow.Service.Attendance

/-! What the coroutines write into the columns of a row, with the status that is shown for it. -/
namespace LocalFlow
variable {config : Config} {backend : Backend} {moment : Moment} {id : TaskId} {slot next : Slot}
variable {s t : System}

/-- A transition of a row: it is not expected or cannot be shown, or it is written with the status
that belongs to it. -/
inductive Transits (expected : List TaskState) (state : TaskState) (fields : List Field)
    (override : Option TaskStatus) : Option TaskRecord → Option TaskRecord → Prop where
  | same (row : Option TaskRecord)
      (why : ∀ r, row = some r → r.state ∈ expected → ¬ Displayable r.pluginSnapshot) :
      Transits expected state fields override row row
  | moved (row : TaskRecord) (status : TaskStatus) (expects : row.state ∈ expected)
      (shown : (override <|> displayStatus row.pluginSnapshot state (row.assign fields).exitCode
        (row.assign fields).interruptStage) = some status) :
      Transits expected state fields override (some row) (some (row.moved state fields status))

theorem transition_shows {db : Db} {now : String} {expected : List TaskState} {state : TaskState}
    {fields : List Field} {override : Option TaskStatus} {row : TaskRecord} {status : TaskStatus}
    (found : db.getTask id = some row)
    (moved : db.transition now id expected state fields override =
      (db.move now id state fields status, .committed)) :
    (override <|> displayStatus row.pluginSnapshot state (row.assign fields).exitCode
      (row.assign fields).interruptStage) = some status := by
  have after : (db.transition now id expected state fields override).1.getTask id =
      some (row.moved state fields status) := by
    rw [moved, Db.getTask_move, if_pos rfl, found, Option.map_some]
  have committed := congrArg Prod.snd moved
  unfold Db.transition at after committed
  rw [found] at after committed
  split at committed
  · cases committed
  · rename_i some_expected
    rw [if_neg some_expected] at after
    dsimp only at committed after
    split at committed
    · cases committed
    · rename_i chosen isChosen
      rw [isChosen] at after
      split at committed
      · rename_i expects
        dsimp only at after
        rw [if_pos expects, Db.getTask_move, if_pos rfl, found, Option.map_some,
          Option.some.injEq] at after
        rw [isChosen]
        exact congrArg (fun r => some r.status) after
      · cases committed

theorem transition_transits (db : Db) (now : String) (id : TaskId) (expected : List TaskState)
    (state : TaskState) (fields : List Field) (override : Option TaskStatus) :
    Transits expected state fields override (db.getTask id)
      ((db.transition now id expected state fields override).1.getTask id) := by
  obtain ⟨raised, row, found, hidden⟩ | ⟨refused, unexpected⟩ | ⟨row, status, found, expects, moved⟩ :=
    db.transition_cases now id expected state fields override
  · rw [raised]
    refine .same _ (fun r same _ => ?_)
    rw [found] at same
    exact Option.some.inj same ▸ hidden
  · rw [refused]
    exact .same _ (fun r same expects => absurd expects (unexpected r same))
  · have shown := transition_shows found moved
    rw [moved, Db.getTask_move, if_pos rfl, found]
    exact .moved row status expects shown

section Coroutines

/-- The columns `_start` writes. -/
inductive StartColumns (act : TaskAct) (row new : Option TaskRecord) : Prop where
  | same (same : new = row)
  | launched (pid : Option Nat) (reference : String)
      (transits : Transits [.starting] .running [.pid pid, .executorRef reference] none row new)
  | failed (isAct : act = .startRaise) (now : String) (bytes : Nat) (seconds : Option Seconds)
      (transits : Transits [.starting] .failed
        [.endedAt now, .exitCode 127, .logSize bytes, .elapsedSeconds seconds] none row new)

theorem startStep_columns {starter : Option Starter} {act : TaskAct}
    (stepped : slot.startStep config moment id starter act = some next) :
    StartColumns act (slot.db.getTask id) (next.db.getTask id) := by
  unfold Slot.startStep at stepped
  split at stepped
  · cases stepped
    unfold Slot.startBegin
    split <;> exact .same rfl
  · rename_i task pid
    split at stepped <;> cases stepped
    have transits := transition_transits slot.db moment.now id [.starting] .running
      [.pid (startPid config.backend pid),
        .executorRef (startReference config.backend config.namespaceHash id pid)] none
    unfold Slot.startReturn
    split <;> rename_i result <;> rw [result] at transits <;> exact .launched _ _ transits
  · rename_i task
    split at stepped <;> cases stepped
    have transits := transition_transits (slot.event moment id "task.start_error").db moment.now id
      [.starting] .failed [.endedAt moment.now, .exitCode 127, .logSize moment.logSize,
        .elapsedSeconds (elapsed moment task)] none
    exact .failed rfl _ _ _ transits
  · cases stepped

theorem cell_startStep {starter : Option Starter} {act : TaskAct}
    (stepped : slot.startStep config moment id starter act = some next) :
    ∃ waiter tree starter, next.cell = { slot.cell with waiter, tree, starter } := by
  unfold Slot.startStep at stepped
  split at stepped
  · cases stepped
    unfold Slot.startBegin
    split <;> exact ⟨_, _, _, rfl⟩
  · split at stepped <;> cases stepped
    unfold Slot.startReturn
    split <;> exact ⟨_, _, _, rfl⟩
  · split at stepped <;> cases stepped
    exact ⟨_, _, _, rfl⟩
  · cases stepped

/-- The columns `_wait` writes. -/
inductive WaitColumns (config : Config) (tree : Tree) (waiter : Option Waiter) (act : TaskAct)
    (row new : Option TaskRecord) : Prop where
  | same (same : new = row)
  | lost (failures : Nat) (current : TaskRecord)
      (isWaiter : waiter = some (.probing failures current (some false)))
      (unread : completedCode config.backend tree = some none) (now : String) (seconds : Option Seconds)
      (transits : Transits [.running, .starting, .stopping] .lost
        [.endedAt now, .elapsedSeconds seconds] none row new)
  | evaluated (task : TaskRecord) (code : Int) (evaluation : Evaluation) (custom : Object)
      (isWaiter : waiter = some (.evaluating task code)) (isAct : act = .waitEvaluated evaluation)
      (encoded : (evaluateResult config.hasEvaluator task code evaluation).custom = some custom)
      (now : String) (bytes : Nat) (seconds : Option Seconds)
      (transits : Transits [.running, .starting, .stopping] (Slot.resultState task code)
        [.endedAt now, .exitCode code, .logSize bytes, .elapsedSeconds seconds, .customJson custom]
        (evaluateResult config.hasEvaluator task code evaluation).statusOverride row new)

theorem row_collected (code : Int) : (slot.collected id code).db.getTask = slot.db.getTask := by
  unfold Slot.collected
  split
  · rfl
  · split <;> rfl

theorem waitStep_columns {waiter : Option Waiter} {act : TaskAct}
    (stepped : slot.waitStep config moment id waiter act = some next) :
    WaitColumns config slot.cell.tree waiter act (slot.db.getTask id) (next.db.getTask id) := by
  unfold Slot.waitStep at stepped
  split at stepped
  · cases stepped
    exact .same rfl
  · split at stepped <;> cases stepped
    rw [row_collected]
    exact .same rfl
  · cases stepped
    unfold Slot.waitRaise
    dsimp only
    split <;> exact .same rfl
  · cases stepped
    exact .same rfl
  · cases stepped
    exact .same rfl
  · rename_i failures current running
    cases stepped
    unfold Slot.waitResume
    split
    · exact .same rfl
    · rename_i completed read
      split
      · exact .same rfl
      · rename_i stopped
        obtain rfl : running = false := by simpa using stopped
        split
        · rw [row_collected]
          exact .same rfl
        · exact .lost failures current rfl read _ _ (transition_transits _ _ _ _ _ _ _)
  · split at stepped <;> cases stepped
    exact .same rfl
  · rename_i task code evaluation
    cases stepped
    unfold Slot.waitEvaluated
    dsimp only
    generalize isNoted : (if (evaluateResult _ task code evaluation).failed = true then _
      else slot : Slot) = noted
    have row : noted.db.getTask id = slot.db.getTask id := by
      rw [← isNoted]
      split <;> rfl
    split
    · exact .same row
    · rename_i custom encoded
      refine .evaluated task code evaluation custom rfl rfl encoded moment.now moment.logSize
        (elapsed moment task) ?_
      rw [← row]
      exact transition_transits _ _ _ _ _ _ _
  · cases stepped

/-- The columns `_confirm_forced_exit` writes, with the exit code it found. -/
inductive ConfirmColumns (backend : Backend) (slot : Slot) (id : TaskId) (confirm : Confirm)
    (act : ConfirmAct) (new : Option TaskRecord) : Prop where
  | same (same : new = slot.db.getTask id)
  | confirmed (attempt : Nat) (current : TaskRecord) (code : Int)
      (point : confirm = .probing attempt current (some false)) (isAct : act = .resume)
      (exited : completedCode backend slot.cell.tree = some (some code))
      (now : String) (bytes : Nat) (seconds : Option Seconds)
      (transits : Transits [.stopping] .cancelled
        [.endedAt now, .exitCode code, .logSize bytes, .elapsedSeconds seconds] none
        (slot.db.getTask id) new)

theorem confirmStep_columns {confirm : Confirm} {act : ConfirmAct} {result : Slot × ConfirmResult}
    (stepped : slot.confirmStep backend moment id confirm act = some result) :
    ConfirmColumns backend slot id confirm act (result.1.db.getTask id) := by
  unfold Slot.confirmStep at stepped
  split at stepped
  · split at stepped <;> cases stepped
    exact .same rfl
  · cases stepped
    exact .same rfl
  · cases stepped
    exact .same rfl
  · rename_i attempt current running
    cases stepped
    unfold Slot.confirmResume
    split
    · exact .same rfl
    · exact .same rfl
    · rename_i code exited
      split
      · exact .same rfl
      · rename_i stopped
        obtain rfl : running = false := by simpa using stopped
        exact .confirmed attempt current code rfl rfl exited _ _ _ (transition_transits _ _ _ _ _ _ _)
  · cases stepped
    exact .same rfl
  · cases stepped
    exact .same rfl
  · cases stepped

theorem row_confirmed (result : Slot × ConfirmResult) :
    (Slot.confirmed result).db.getTask = result.1.db.getTask := by
  rw [db_confirmed]

/-- The columns `_interrupt_sequence` writes. -/
inductive StopColumns (row new : Option TaskRecord) : Prop where
  | halts (halts : Halts row new)
  | confirmed (now : String) (code : Int) (bytes : Nat) (seconds : Option Seconds)
      (transits : Transits [.stopping] .cancelled
        [.endedAt now, .exitCode code, .logSize bytes, .elapsedSeconds seconds] none row new)

theorem ConfirmColumns.stop {confirm : Confirm} {act : ConfirmAct} {new : Option TaskRecord}
    (columns : ConfirmColumns backend slot id confirm act new) :
    StopColumns (slot.db.getTask id) new := by
  cases columns with
  | same same => exact .halts (same ▸ .same _)
  | confirmed _ _ code _ _ _ now bytes seconds transits =>
    exact .confirmed now code bytes seconds transits

theorem stopStep_columns {point : SequencePoint} {act : StopAct}
    (stepped : slot.stopStep backend moment id point act = some next) :
    StopColumns (slot.db.getTask id) (next.db.getTask id) := by
  cases stops_stopStep stepped with
  | stage staged => exact .halts staged.row
  | killed =>
    rw [row_confirmed]
    exact .halts (.same _)
  | killRaise => exact .halts (.same _)
  | confirm confirming =>
    rw [row_confirmed]
    exact (confirmStep_columns confirming).stop
  | cancelled entered => exact .halts (.same _)

/-- A queued task is cancelled where it stands. -/
theorem interrupt_queued (moment : Moment) (sigint sigterm : Grace) {r : TaskRecord}
    (found : slot.db.getTask id = some r) (queued : r.state = .queued) :
    (slot.interrupt moment id sigint sigterm).1 = { slot with
      db := (slot.db.transition moment.now id [.queued] .cancelled
        [.endedAt moment.now, .interruptStage .queued]).1 } := by
  unfold Slot.interrupt
  rw [found]
  dsimp only
  rw [if_pos queued]

/-- The columns a request to interrupt writes. -/
inductive InterruptColumns (slot : Slot) (id : TaskId) (new : Option TaskRecord) : Prop where
  | same (same : new = slot.db.getTask id)
  | frozen (row : TaskRecord) (stop : Option StopStrategy) (found : slot.db.getTask id = some row)
      (isNew : new = some { row with stop })
  | queued (now : String) (transits : Transits [.queued] .cancelled
      [.endedAt now, .interruptStage .queued] none (slot.db.getTask id) new)
  | requested (row : TaskRecord) (stop : Option StopStrategy) (status : TaskStatus)
      (found : slot.db.getTask id = some row) (live : row.state = .starting ∨ row.state = .running)
      (free : slot.cell.sequence = none)
      (isNew : new = some ({ row with stop }.moved .stopping [.interruptStage .requested] status))

theorem interrupt_columns (moment : Moment) (id : TaskId) (slot : Slot) (sigint sigterm : Grace) :
    InterruptColumns slot id ((slot.interrupt moment id sigint sigterm).1.db.getTask id) := by
  have interrupts := interrupts_interrupt moment id slot sigint sigterm
  by_cases queued : ∃ r, slot.db.getTask id = some r ∧ r.state = .queued
  · obtain ⟨r, found, isQueued⟩ := queued
    rw [interrupt_queued moment sigint sigterm found isQueued]
    exact .queued moment.now (transition_transits _ _ _ _ _ _ _)
  · generalize (slot.interrupt moment id sigint sigterm).1 = next at interrupts
    generalize (slot.interrupt moment id sigint sigterm).2 = raised at interrupts
    cases interrupts with
    | missing => exact .same rfl
    | queued _ _ _ was => exact absurd was queued
    | stopping r stop status _ _ found live free row =>
      exact .requested r stop status found live free row
    | hidden r stop found _ _ row => exact .frozen r stop found row
    | advanced r found _ _ row => exact .same (row.trans found.symm)

end Coroutines

section Recoveries
variable {recovery : Recovery} {a : RecoverAct}

/-- What `recover` writes for a task, and when. -/
inductive Settles (config : Config) (s : System) (recovery : Recovery) (id : TaskId) :
    RecoverAct → TaskState → List Field → Option TaskStatus → Prop where
  | restarted (task : TaskRecord) (rest : List TaskRecord) (named : task.id = id)
      (point : recovery.point = .next) (todo : recovery.todo = task :: rest)
      (restarted : recovery.hostRestarted = true) :
      Settles config s recovery id .next .lost [.endedAt s.wall, .elapsedSeconds none] none
  | killed (task : TaskRecord) (named : task.id = id)
      (point : recovery.point = .probing task none (some false))
      (stage : task.interruptStage = some .sigkill) (seconds : Option Seconds) :
      Settles config s recovery id .resume .cancelled
        [.endedAt s.wall, .exitCode 137, .elapsedSeconds seconds] none
  | lost (task : TaskRecord) (named : task.id = id)
      (point : recovery.point = .probing task none (some false))
      (stage : task.interruptStage ≠ some .sigkill) :
      Settles config s recovery id .resume .lost [.endedAt s.wall] none
  | evaluated (task : TaskRecord) (code : Int) (evaluation : Evaluation) (custom : Object)
      (named : task.id = id) (point : recovery.point = .evaluating task code)
      (encoded : (evaluateResult config.hasEvaluator task code evaluation).custom = some custom)
      (bytes : Nat) (seconds : Option Seconds) :
      Settles config s recovery id (.evaluated evaluation) (Slot.resultState task code)
        [.endedAt s.wall, .exitCode code, .logSize bytes, .elapsedSeconds seconds, .customJson custom]
        (evaluateResult config.hasEvaluator task code evaluation).statusOverride

/-- The columns `recover` writes. -/
inductive RecoverColumns (config : Config) (s : System) (recovery : Recovery) (a : RecoverAct)
    (id : TaskId) (new : Option TaskRecord) : Prop where
  | same (same : new = s.db.getTask id)
  | settled (state : TaskState) (fields : List Field) (override : Option TaskStatus)
      (settles : Settles config s recovery id a state fields override)
      (transits : Transits liveStates state fields override (s.db.getTask id) new)

theorem settleRecovered_row {middle : System} {after : Recovery} {target : TaskId} {state : TaskState}
    {fields : List Field} {override : Option TaskStatus} {extra : Option String} (id : TaskId) :
    (middle.settleRecovered config after target state fields override extra).db.getTask id =
      middle.db.getTask id ∧ id ≠ target ∨
    id = target ∧ Transits liveStates state fields override (middle.db.getTask id)
      ((middle.settleRecovered config after target state fields override extra).db.getTask id) := by
  have noted : ∀ db : Db,
    (extra.elim db (fun kind => db.addEvent middle.wall (some target) kind)).getTask
      = db.getTask := by
    intro db
    cases extra <;> rfl
  have transits := transition_transits middle.db middle.wall target liveStates state fields override
  have frame : ∀ other, other ≠ target →
      (middle.db.transition middle.wall target liveStates state fields override).1.getTask other =
        middle.db.getTask other := by
    intro other apart
    obtain ⟨same, _⟩ | ⟨same, _⟩ | ⟨_, _, _, _, same⟩ :=
      middle.db.transition_cases middle.wall target liveStates state fields override
    · rw [same]
    · rw [same]
    · rw [same, Db.getTask_move, if_neg apart]
  have row : (middle.settleRecovered config after target state fields override extra).db.getTask =
      (middle.db.transition middle.wall target liveStates state fields override).1.getTask := by
    unfold System.settleRecovered
    split <;> rename_i result <;> rw [result]
    · rfl
    · exact noted _
  rw [row]
  by_cases here : id = target
  · subst here
    exact .inr ⟨rfl, transits⟩
  · exact .inl ⟨frame id here, here⟩

/-- A task is settled as it should be, and any other stays as it is. -/
theorem RecoverColumns.of_settle {middle : System} {after : Recovery} {target : TaskId}
    {state : TaskState}
    {fields : List Field} {override : Option TaskStatus} {extra : Option String}
    (rows : middle.db.getTask = s.db.getTask)
    (settles : Settles config s recovery target a state fields override) (id : TaskId) :
    RecoverColumns config s recovery a id
      ((middle.settleRecovered config after target state fields override extra).db.getTask id) := by
  have settled : (middle.settleRecovered config after target state fields override extra).db.getTask
    id =
      middle.db.getTask id ∧ id ≠ target ∨ id = target ∧ _ := settleRecovered_row id
  obtain ⟨same, _⟩ | ⟨rfl, transits⟩ := settled
  · exact .same (same.trans (congrFun rows id))
  · rw [rows] at transits
    exact .settled state fields override settles transits

theorem recoverStep_columns (stepped : s.recoverStep config recovery a = some t)
    (unfinished : ∀ fails cutoff faults, a ≠ .finish fails cutoff faults) (id : TaskId) :
    RecoverColumns config s recovery a id (t.db.getTask id) := by
  unfold System.recoverStep at stepped
  split at stepped
  · rename_i point
    unfold System.recoverNext at stepped
    split at stepped
    · obtain ⟨key, _, rfl⟩ := Option.map_eq_some_iff.mp stepped
      exact .same rfl
    · rename_i task rest todo
      dsimp only at stepped
      split at stepped
      · rename_i restarted
        cases stepped
        exact .of_settle rfl (.restarted task rest rfl point todo restarted) id
      · split at stepped <;> cases stepped <;> exact .same rfl
  · cases stepped
    exact .same rfl
  · cases stepped
    exact .same rfl
  · rename_i task completed running point
    cases stepped
    unfold System.recoverResume
    split
    · exact .same rfl
    · dsimp only
      split <;> exact .same rfl
    · split
      · rename_i stage
        exact .of_settle rfl (.killed task rfl point stage _) id
      · rename_i stage
        exact .of_settle rfl (.lost task rfl point stage) id
  · rename_i task code evaluation point
    cases stepped
    unfold System.recoverEvaluated
    dsimp only
    generalize isNoted : (if (evaluateResult _ task code evaluation).failed = true then _
      else s : System) = noted
    have rows : noted.db.getTask = s.db.getTask := by
      rw [← isNoted]
      split <;> rfl
    split
    · exact .same (congrFun rows id)
    · rename_i custom encoded
      refine .of_settle rows ?_ id
      exact .evaluated task code evaluation custom rfl point encoded _ _
  · exact absurd rfl (unfinished _ _ _)
  · cases stepped

end Recoveries
end LocalFlow
