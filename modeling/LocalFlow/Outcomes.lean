import LocalFlow.Service.Starts
import LocalFlow.Service.Sound
import LocalFlow.Service.Columns

/-! How a task ends against what its stop recorded: the state, the exit code, the stage and the
status shown agree, as long as no stop is accepted while a result is being evaluated. -/
namespace LocalFlow
open Transition
variable {config : Config} {s t : System} {act : Act} {id : TaskId}

/-- What is known of a status and the exit code it stands for, given the snapshot of the plugin. -/
abbrev Verdicts := Object → TaskStatus → Int → Prop

variable {J J' : Verdicts}

section Rows
variable {row new : TaskRecord}

/-- A row whose state, stage, exit code and status tell the same story. -/
inductive Agreed (J : Verdicts) (row : TaskRecord) : Prop where
  | unstopped (live : row.state = .queued ∨ row.state = .starting ∨ row.state = .running)
      (unasked : row.interruptStage = none) (unfinished : row.exitCode = none)
  | stopping (state : row.state = .stopping) (asked : row.interruptStage.isSome = true)
      (unfinished : row.exitCode = none)
  | cancelled (state : row.state = .cancelled) (asked : row.interruptStage.isSome = true)
      (shown : displayStatus row.pluginSnapshot .cancelled = some row.status)
  | lost (state : row.state = .lost) (unfinished : row.exitCode = none)
      (shown : displayStatus row.pluginSnapshot .lost = some row.status)
  | judged (code : Int) (state : row.state = if code = 0 then .succeeded else .failed)
      (unasked : row.interruptStage = none) (exited : row.exitCode = some code)
      (shown : J row.pluginSnapshot row.status code)

theorem agreed_core : Agreed J row.core ↔ Agreed J row := by
  constructor
  · intro agreed
    cases agreed with
    | unstopped live unasked unfinished => exact .unstopped live unasked unfinished
    | stopping state asked unfinished => exact .stopping state asked unfinished
    | cancelled state asked shown => exact .cancelled state asked shown
    | lost state unfinished shown => exact .lost state unfinished shown
    | judged code state unasked exited shown => exact .judged code state unasked exited shown
  · intro agreed
    cases agreed with
    | unstopped live unasked unfinished => exact .unstopped live unasked unfinished
    | stopping state asked unfinished => exact .stopping state asked unfinished
    | cancelled state asked shown => exact .cancelled state asked shown
    | lost state unfinished shown => exact .lost state unfinished shown
    | judged code state unasked exited shown => exact .judged code state unasked exited shown

theorem Agreed.of_core (agreed : Agreed J row) (same : new.core = row.core) :
    Agreed J new := by
  rw [← agreed_core, same, agreed_core]
  exact agreed

theorem Agreed.mono (weaker : ∀ snapshot status code, J snapshot status code → J' snapshot status code)
    (agreed : Agreed J row) : Agreed J' row := by
  cases agreed with
  | unstopped live unasked unfinished => exact .unstopped live unasked unfinished
  | stopping state asked unfinished => exact .stopping state asked unfinished
  | cancelled state asked shown => exact .cancelled state asked shown
  | lost state unfinished shown => exact .lost state unfinished shown
  | judged code state unasked exited shown =>
    exact .judged code state unasked exited (weaker _ _ _ shown)

theorem Agreed.unasked (agreed : Agreed J row)
    (live : row.state = .queued ∨ row.state = .starting ∨ row.state = .running) :
    row.interruptStage = none := by
  cases agreed with
  | unstopped _ unasked => exact unasked
  | judged _ _ unasked => exact unasked
  | stopping state | cancelled state | lost state => simp [state] at live

theorem Agreed.asked (agreed : Agreed J row)
    (halted : row.state = .stopping ∨ row.state = .cancelled) : row.interruptStage.isSome = true := by
  cases agreed with
  | stopping _ asked => exact asked
  | cancelled _ asked => exact asked
  | lost state => simp [state] at halted
  | unstopped live => obtain state | state | state := live <;> simp [state] at halted
  | judged code state =>
    rw [state] at halted
    split at halted <;> simp at halted

theorem Agreed.unfinished (agreed : Agreed J row) (active : row.state.active = true) :
    row.exitCode = none := by
  cases agreed with
  | unstopped _ _ unfinished => exact unfinished
  | stopping _ _ unfinished => exact unfinished
  | lost _ unfinished => exact unfinished
  | cancelled state =>
    rw [state] at active
    cases active
  | judged code state =>
    rw [state] at active
    split at active <;> cases active

/-- What a step may do to the stage of a task: nothing, stop it, or withdraw it from the queue. -/
inductive Asks (row new : TaskRecord) : Prop where
  | silent (same : new.interruptStage = row.interruptStage)
  | stopped (live : row.state ∈ liveStates) (stopping : new.state = .stopping)
  | withdrawn (queued : row.state = .queued) (cancelled : new.state = .cancelled)

/-- A step from an agreed row. -/
def Proceeds (J : Verdicts) (row new : Option TaskRecord) : Prop :=
  ∀ n, new = some n → ∃ r, row = some r ∧ Agreed J n ∧ Asks r n

/-- The evaluator's choice, or else the status that the result table names for the exit code. -/
def Selected (override : Option TaskStatus) (snapshot : Object) (status : TaskStatus)
    (code : Int) : Prop :=
  (override <|> displayStatus snapshot (if code = 0 then .succeeded else .failed) (some code)) =
    some status

/-- A choice made for the exit code that a row gets is one of the verdicts. -/
def Awards (J : Verdicts) (override : Option TaskStatus) (code : Int)
    (row new : Option TaskRecord) : Prop :=
  ∀ r n, row = some r → new = some n → r.exitCode = none → n.exitCode = some code →
    Selected override n.pluginSnapshot n.status code → J n.pluginSnapshot n.status code

end Rows

section Columns
variable {row new : Option TaskRecord} {now : String} {bytes : Nat} {seconds : Option Seconds}

theorem proceeds_same (agreed : ∀ r, row = some r → Agreed J r) (same : new = row) :
    Proceeds J row new := by
  intro n found
  rw [same] at found
  exact ⟨n, found, agreed n found, .silent rfl⟩

theorem Halts.proceeds (agreed : ∀ r, row = some r → Agreed J r) (halts : Halts row new) :
    Proceeds J row new := by
  cases halts with
  | same => exact proceeds_same agreed rfl
  | stopping r status stage live =>
    intro n found
    cases found
    have active : r.state.active = true := mem_liveStates.mp live
    exact ⟨r, rfl, .stopping rfl rfl ((agreed r rfl).unfinished active), .stopped live rfl⟩

/-- A task that is lost keeps its stage and has no exit code. -/
theorem proceeds_lost {expected : List TaskState} (live : ∀ state ∈ expected, state.active = true)
    (agreed : ∀ r, row = some r → Agreed J r)
    (transits : Transits expected .lost [.endedAt now, .elapsedSeconds seconds] none row new) :
    Proceeds J row new := by
  cases transits with
  | same => exact proceeds_same agreed rfl
  | moved r status expects shown =>
    intro n found
    cases found
    exact ⟨r, rfl, .lost rfl ((agreed r rfl).unfinished (live _ expects)) shown, .silent rfl⟩

theorem proceeds_launched {pid : Option Nat} {reference : String}
    (agreed : ∀ r, row = some r → Agreed J r)
    (transits : Transits [.starting] .running [.pid pid, .executorRef reference] none row new) :
    Proceeds J row new := by
  cases transits with
  | same => exact proceeds_same agreed rfl
  | moved r status expects =>
    intro n found
    cases found
    have starting : r.state = .starting := List.mem_singleton.mp expects
    have unasked := (agreed r rfl).unasked (.inr (.inl starting))
    have unfinished := (agreed r rfl).unfinished (by rw [starting]; rfl)
    exact ⟨r, rfl, .unstopped (.inr (.inr rfl)) unasked unfinished, .silent rfl⟩

theorem proceeds_failed (agreed : ∀ r, row = some r → Agreed J r) (awards : Awards J none 127 row new)
    (transits : Transits [.starting] .failed [.endedAt now, .exitCode 127, .logSize bytes,
      .elapsedSeconds seconds] none row new) : Proceeds J row new := by
  cases transits with
  | same => exact proceeds_same agreed rfl
  | moved r status expects shown =>
    intro n found
    cases found
    have starting : r.state = .starting := List.mem_singleton.mp expects
    have unasked : r.interruptStage = none := (agreed r rfl).unasked (.inr (.inl starting))
    have unfinished : r.exitCode = none := (agreed r rfl).unfinished (by rw [starting]; rfl)
    refine ⟨r, rfl, .judged 127 rfl unasked rfl (awards r _ rfl rfl unfinished rfl ?_), .silent rfl⟩
    have display : displayStatus r.pluginSnapshot .failed (some 127) r.interruptStage =
      some status := shown
    rw [unasked] at display
    exact display

theorem StopColumns.proceeds (agreed : ∀ r, row = some r → Agreed J r)
    (columns : StopColumns row new) : Proceeds J row new := by
  cases columns with
  | halts halts => exact halts.proceeds agreed
  | confirmed now code bytes seconds transits =>
    cases transits with
    | same => exact proceeds_same agreed rfl
    | moved r status expects shown =>
      intro n found
      cases found
      have asked := (agreed r rfl).asked (.inl (List.mem_singleton.mp expects))
      exact ⟨r, rfl, .cancelled rfl asked shown, .silent rfl⟩

/-- A result that was evaluated for the stage the row still has. -/
theorem proceeds_evaluated {task : TaskRecord} {code : Int} {custom : Object}
    {expected : List TaskState} {override : Option TaskStatus}
    (live : ∀ state ∈ expected, state.active = true)
    (agreed : ∀ r, row = some r → Agreed J r) (awards : Awards J override code row new)
    (timely : ∀ r, row = some r → r.state ∈ expected →
      task.interruptStage.isSome = r.interruptStage.isSome)
    (transits : Transits expected (Slot.resultState task code)
      [.endedAt now, .exitCode code, .logSize bytes, .elapsedSeconds seconds,
        .customJson custom] override row new)
    (silent : task.interruptStage.isSome = true → override = none) :
    Proceeds J row new := by
  cases transits with
  | same => exact proceeds_same agreed rfl
  | moved r status expects shown =>
    intro n found
    cases found
    have stage := timely r rfl expects
    refine ⟨r, rfl, ?_, .silent rfl⟩
    by_cases asked : r.interruptStage.isSome = true
    · rw [asked] at stage
      have state : Slot.resultState task code = .cancelled := if_pos stage
      rw [silent stage, state] at shown
      rw [state]
      exact .cancelled rfl asked shown
    · have unasked : r.interruptStage = none := by simpa using asked
      rw [unasked] at stage
      have state : Slot.resultState task code = if code = 0 then .succeeded else .failed := by
        unfold Slot.resultState
        rw [stage]
        rfl
      have unfinished : r.exitCode = none := (agreed r rfl).unfinished (live _ expects)
      have display : (override <|>
          displayStatus r.pluginSnapshot (Slot.resultState task code) (some code) r.interruptStage) =
            some status := shown
      rw [state, unasked] at display
      exact .judged code state unasked rfl (awards r _ rfl rfl unfinished rfl display)

end Columns
section Steps

theorem proceeds_interrupt (moment : Moment) (id : TaskId) (slot : Slot) (sigint sigterm : Grace)
    (agreed : ∀ r, slot.db.getTask id = some r → Agreed J r) :
    Proceeds J (slot.db.getTask id)
      ((slot.interrupt moment id sigint sigterm).1.db.getTask id) := by
  cases interrupt_columns moment id slot sigint sigterm with
  | same same => exact proceeds_same agreed same
  | frozen r stop found isNew =>
    intro n isRow
    have same := Option.some.inj (isNew.symm.trans isRow)
    subst same
    refine ⟨r, found, ?_, .silent rfl⟩
    cases agreed r found with
    | unstopped live unasked unfinished => exact .unstopped live unasked unfinished
    | stopping state asked unfinished => exact .stopping state asked unfinished
    | cancelled state asked shown => exact .cancelled state asked shown
    | lost state unfinished shown => exact .lost state unfinished shown
    | judged code state unasked exited shown => exact .judged code state unasked exited shown
  | queued now transits =>
    generalize (slot.interrupt moment id sigint sigterm).1.db.getTask id = new at transits
    generalize isRow : slot.db.getTask id = row at transits
    rw [isRow] at agreed
    cases transits with
    | same => exact proceeds_same agreed rfl
    | moved r status expects shown =>
      intro n found
      cases found
      exact ⟨r, rfl, .cancelled rfl rfl shown, .withdrawn (List.mem_singleton.mp expects) rfl⟩
  | requested r stop status found live _ isNew =>
    intro n isRow
    have same := Option.some.inj (isNew.symm.trans isRow)
    subst same
    have unfinished : r.exitCode = none :=
      (agreed r found).unfinished (by obtain state | state := live <;> rw [state] <;> rfl)
    refine ⟨r, found, .stopping rfl rfl unfinished, .stopped ?_ rfl⟩
    rw [mem_liveStates]
    obtain state | state := live <;> rw [state] <;> rfl

/-- Steps of a controller that serves: it neither dies, nor recovers a task, nor shuts down. -/
def Act.serves : Act → Bool
  | .crash | .reboot _ | .closing _ => false
  | .recover (.finish _ _ _) => true
  | .recover _ => false
  | _ => true

/-- No stop was recorded while a result that is about to be written was evaluated. -/
structure Timely (s : System) (act : Act) : Prop where
  serves : act.serves = true
  decided : ∀ id evaluation task code row, act = .task id (.waitEvaluated evaluation) →
    (s.cells.get id).waiter = some (.evaluating task code) → s.db.getTask id = some row →
    row.state.active = true → task.interruptStage.isSome = row.interruptStage.isSome

/-- An act that ends a task chooses its status. -/
inductive Concludes (config : Config) (s : System) (id : TaskId) (snapshot : Object)
    (status : TaskStatus) :
    Int → Act → Prop where
  | evaluated (task : TaskRecord) (code : Int) (evaluation : Evaluation)
      (watched : (s.cells.get id).waiter = some (.evaluating task code))
      (chosen : Selected (evaluateResult config.hasEvaluator task code evaluation).statusOverride
        snapshot status code) :
      Concludes config s id snapshot status code (.task id (.waitEvaluated evaluation))
  | refused (chosen : Selected none snapshot status 127) : Concludes config s id snapshot status 127
      (.task id .startRaise)

/-- What an act decides about the exit code that it writes is one of the verdicts. -/
def Deems (config : Config) (J : Verdicts) (s : System) (act : Act) (row new : Option TaskRecord)
    (id : TaskId) : Prop :=
  ∀ r n code, row = some r → new = some n → r.exitCode = none → n.exitCode = some code →
    Concludes config s id n.pluginSnapshot n.status code act → J n.pluginSnapshot n.status code

theorem proceeds_taskStep {a : TaskAct} {next : Slot} (timely : Timely s (.task id a))
    (agreed : ∀ r, s.db.getTask id = some r → Agreed J r)
    (deems : Deems config J s (.task id a) (s.db.getTask id) (next.db.getTask id) id)
    (stepped : (s.slot id).taskStep config (s.moment id) id a = some next) :
    Proceeds J (s.db.getTask id) (next.db.getTask id) := by
  cases steps_taskStep stepped with
  | tree tree => exact proceeds_same agreed rfl
  | start started =>
    cases startStep_columns started with
    | same same => exact proceeds_same agreed same
    | launched pid reference transits => exact proceeds_launched agreed transits
    | failed isAct now bytes seconds transits =>
      subst isAct
      exact proceeds_failed agreed (fun r n isRow isNew unfinished exited chosen =>
        deems r n _ isRow isNew unfinished exited (.refused chosen)) transits
  | wait waited =>
    cases waitStep_columns waited with
    | same same => exact proceeds_same agreed same
    | lost _ _ _ _ now seconds transits =>
      exact proceeds_lost (by simp [TaskState.active]) agreed transits
    | evaluated task code evaluation custom isWaiter isAct _ now bytes seconds transits =>
      subst isAct
      have live : ∀ state ∈ [TaskState.running, .starting, .stopping], state.active = true := by
        simp [TaskState.active]
      refine proceeds_evaluated live agreed (fun r n isRow isNew unfinished exited chosen =>
        deems r n _ isRow isNew unfinished exited (.evaluated task code evaluation isWaiter chosen))
        (fun r found expects => ?_) transits (fun stopped => ?_)
      · exact timely.decided id evaluation task code r rfl isWaiter found (live _ expects)
      · unfold evaluateResult
        rw [stopped]
        rfl
  | stop sequence isSequence stopped => exact (stopStep_columns stopped).proceeds agreed

/-- A row after a step comes of a row before it, or has just been submitted. -/
def Comes (J : Verdicts) (s t : System) (id : TaskId) : Prop :=
  Proceeds J (s.db.getTask id) (t.db.getTask id) ∨
    s.db.getTask id = none ∧ s.db.written id = [] ∧
      ∀ n, t.db.getTask id = some n → n.state = .queued ∧ n.interruptStage = none ∧ n.exitCode = none

theorem Kept.proceeds (agreed : ∀ r, s.db.getTask id = some r → Agreed J r)
    (kept : Kept config s t id) : Proceeds J (s.db.getTask id) (t.db.getTask id) := by
  intro n found
  obtain ⟨old, isOld, same⟩ := kept.row found
  have stage : old.interruptStage = n.interruptStage := congrArg (fun r => r.interruptStage) same
  exact ⟨old, isOld, (agreed old isOld).of_core same.symm, .silent stage.symm⟩

theorem comes_step (sound : Sound s) (timely : Timely s act)
    (agreed : ∀ r, s.db.getTask id = some r → Agreed J r)
    (deems : Deems config J s act (s.db.getTask id) (t.db.getTask id) id)
    (stepped : Step config s act t) : Comes J s t id := by
  have unable : act.serves = false → False := fun other => by
    have serves := timely.serves
    rw [other] at serves
    cases serves
  cases moved_step stepped id with
  | kept kept => exact .inl (kept.proceeds agreed)
  | started serving row new stored queued found starting =>
    left
    intro n isNew
    rw [found] at isNew
    cases isNew
    obtain ⟨status, same⟩ := started_row (sound.agrees id) stepped serving stored queued found starting
    have unasked : row.interruptStage = none := (agreed row stored).unasked (.inl queued)
    have unfinished : row.exitCode = none := by
      cases agreed row stored with
      | unstopped _ _ unfinished => exact unfinished
      | stopping state | cancelled state | lost state => simp [state] at queued
      | judged code state =>
        rw [state] at queued
        split at queued <;> cases queued
    have fresh : Agreed J
        (row.moved .starting (startFields s.wall s.monotonic) status) := by
      refine .unstopped (.inr (.inl rfl)) ?_ ?_
      · exact unasked
      · exact unfinished
    refine ⟨row, stored, fresh.of_core same, .silent ?_⟩
    have stage : new.interruptStage = row.interruptStage := congrArg (fun r => r.interruptStage) same
    exact stage
  | enrolled row missing unused found queued =>
    right
    obtain ⟨draft, status, rfl⟩ := enrolled_row stepped missing found
    refine ⟨missing, unused, fun n isNew => ?_⟩
    rw [found] at isNew
    cases isNew
    exact ⟨rfl, rfl, rfl⟩
  | own a next isAct task view =>
    subst isAct
    have row : t.db.getTask id = next.db.getTask id := congrArg View.row view
    rw [row] at deems
    rw [Comes, row]
    exact .inl (proceeds_taskStep timely agreed deems task)
  | asked sigint sigterm _ view =>
    have row : t.db.getTask id = _ := congrArg View.row view
    rw [Comes, row]
    exact .inl (proceeds_interrupt (s.moment id) id (s.slot id) sigint sigterm agreed)
  | crashed middle kept row =>
    rw [Comes, row]
    exact .inl (kept.proceeds agreed)
  | settled recovery a isAct phase ends =>
    subst isAct
    refine absurd (unable ?_) not_false
    cases a with
    | finish =>
      unfold Recovery.Ends at ends
      split at ends <;> first | exact absurd ends not_false | (rename_i impossible; cases impossible)
    | next | query | queryRaise | resume | evaluated => rfl
  | watched recovery task completed phase point named row =>
    rw [Comes, row]
    exact .inl (proceeds_same agreed rfl)
  | closed a isAct =>
    subst isAct
    exact absurd (unable rfl) not_false
  | confirmed exited todo confirm a result isAct =>
    subst isAct
    exact absurd (unable rfl) not_false

end Steps
section Runs
variable {acts early later : List Act} {u : System} {boot wall : String} {receipt : Receipt}

/-- Every row of the database agrees with itself. -/
structure Told (J : TaskId → Verdicts) (s : System) : Prop where
  sound : Sound s
  agreed : ∀ id r, s.db.getTask id = some r → Agreed (J id) r

theorem told_initial {J : TaskId → Verdicts} : Told J (.initial boot wall receipt) where
  sound := sound_initial boot wall receipt
  agreed _ _ found := by cases found

theorem Told.mono {J J' : TaskId → Verdicts} (told : Told J s)
    (weaker : ∀ id snapshot status code, J id snapshot status code → J' id snapshot status code) :
    Told J' s :=
  ⟨told.sound, fun id r found => (told.agreed id r found).mono (weaker id)⟩

theorem Told.step {J : TaskId → Verdicts} (told : Told J s)
    (stepped : Guarded (Step config) Timely s act t)
    (deems : ∀ id, Deems config (J id) s act (s.db.getTask id) (t.db.getTask id) id) : Told J t where
  sound := told.sound.step stepped.1
  agreed id n found := by
    obtain proceeds | ⟨_, _, fresh⟩ :=
      comes_step told.sound stepped.2 (told.agreed id) (deems id) stepped.1
    · obtain ⟨_, _, agreed, _⟩ := proceeds n found
      exact agreed
    · obtain ⟨queued, unasked, unfinished⟩ := fresh n found
      exact .unstopped (.inl queued) unasked unfinished

/-- Nothing is asked of a verdict. -/
def anyVerdict : TaskId → Verdicts := fun _ _ _ _ => True

theorem deems_any {row new : Option TaskRecord} : Deems config (anyVerdict id) s act row new id :=
  fun _ _ _ _ _ _ _ _ => trivial

/-- An interrupt of the task was accepted between two states. -/
def Accepted (s t : System) (id : TaskId) : Prop :=
  ∃ row new, s.db.getTask id = some row ∧ t.db.getTask id = some new ∧
    (row.state = .queued ∧ new.state = .cancelled ∨
      (row.state = .starting ∨ row.state = .running) ∧ new.state = .stopping)

/-- An interrupt of the task is accepted in the course of some steps. -/
def Accepts (config : Config) (id : TaskId) : System → List Act → Prop
  | _, [] => False
  | s, act :: rest => ∃ t, Step config s act t ∧ (Accepted s t id ∨ Accepts config id t rest)

theorem accepts_cons (stepped : Step config s act t) :
    Accepts config id s (act :: early) ↔ Accepted s t id ∨ Accepts config id t early := by
  constructor
  · rintro ⟨other, same, accepted⟩
    have isOther : other = t := Option.some.inj (same.symm.trans stepped)
    exact isOther ▸ accepted
  · intro accepted
    exact ⟨t, stepped, accepted⟩

theorem accepts_append (run : Run (Step config) s early t) (accepts : Accepts config id t later) :
    Accepts config id s (early ++ later) := by
  induction run with
  | nil => exact accepts
  | cons stepped _ ih => exact ⟨_, stepped, .inr (ih accepts)⟩

/-- A stage is recorded for the task. -/
def Asked (s : System) (id : TaskId) : Prop :=
  ∃ row, s.db.getTask id = some row ∧ row.interruptStage.isSome = true

/-- One step records a stage exactly when it accepts an interrupt. -/
theorem asked_step (told : Told anyVerdict s) (stepped : Guarded (Step config) Timely s act t)
    {new : TaskRecord} (found : t.db.getTask id = some new) :
    Asked t id ↔ Asked s id ∨ Accepted s t id := by
  have after : ∀ r, t.db.getTask id = some r → r = new := fun r same =>
    Option.some.inj (same.symm.trans found)
  obtain proceeds | ⟨missing, _, fresh⟩ :=
    comes_step told.sound stepped.2 (told.agreed id) deems_any stepped.1
  · obtain ⟨row, isRow, agreed, asks⟩ := proceeds new found
    have before : ∀ r, s.db.getTask id = some r → r = row := fun r same =>
      Option.some.inj (same.symm.trans isRow)
    constructor
    · rintro ⟨r, same, asked⟩
      rw [after r same] at asked
      cases asks with
      | silent same => exact .inl ⟨row, isRow, by rw [← same]; exact asked⟩
      | stopped live stopping =>
        by_cases already : row.state = .stopping
        · exact .inl ⟨row, isRow, (told.agreed id row isRow).asked (.inl already)⟩
        · refine .inr ⟨row, new, isRow, found, .inr ⟨?_, stopping⟩⟩
          rw [mem_liveStates] at live
          revert live already
          cases row.state <;> simp [TaskState.active]
      | withdrawn queued cancelled => exact .inr ⟨row, new, isRow, found, .inl ⟨queued, cancelled⟩⟩
    · rintro (⟨r, same, asked⟩ | ⟨r, n, _, isNew, states⟩)
      · rw [before r same] at asked
        refine ⟨new, found, ?_⟩
        cases asks with
        | silent same => rw [same]; exact asked
        | stopped live stopping => exact agreed.asked (.inl stopping)
        | withdrawn queued cancelled => exact agreed.asked (.inr cancelled)
      · rw [after n isNew] at states
        refine ⟨new, found, agreed.asked ?_⟩
        exact states.elim (fun both => .inr both.2) (fun both => .inl both.2)
  · have unasked := (fresh new found).2.1
    constructor
    · rintro ⟨r, same, asked⟩
      rw [after r same, unasked] at asked
      cases asked
    · rintro (⟨r, same, _⟩ | ⟨r, _, same, _⟩) <;>
        (rw [missing] at same
         cases same)

/-- A task that is deleted does not come back. -/
theorem gone_run (told : Told anyVerdict s) (used : s.db.written id ≠ [])
    (gone : s.db.getTask id = none)
    (run : Run (Guarded (Step config) Timely) s acts t) : t.db.getTask id = none := by
  have invariant : Told anyVerdict t ∧ t.db.written id ≠ [] ∧ t.db.getTask id = none := by
    refine run.invariant (P := fun v => Told anyVerdict v ∧ v.db.written id ≠ [] ∧
      v.db.getTask id = none)
      ?_ ⟨told, used, gone⟩
    rintro v act w ⟨told, used, gone⟩ stepped
    have changes : Changes (fun _ => True) v.db w.db := changes_step stepped.1 (fun _ _ => trivial)
    refine ⟨told.step stepped (fun _ => deems_any), fun none => used ?_, ?_⟩
    · have grows := changes.written_grows id
      rw [none] at grows
      exact List.prefix_nil.mp grows
    · obtain proceeds | ⟨_, unused, _⟩ :=
        comes_step told.sound stepped.2 (told.agreed id) deems_any stepped.1
      · cases found : w.db.getTask id with
        | none => rfl
        | some new =>
          obtain ⟨row, isRow, _⟩ := proceeds new found
          rw [gone] at isRow
          cases isRow
      · exact absurd unused used
  exact invariant.2.2

/-- A whole run records a stage exactly when it accepts an interrupt. -/
theorem asked_run (told : Told anyVerdict s) (run : Run (Guarded (Step config) Timely) s acts t)
    {last : TaskRecord} (found : t.db.getTask id = some last) :
    Asked t id ↔ Asked s id ∨ Accepts config id s acts := by
  induction run with
  | nil => simp [Accepts]
  | @cons s act t rest u stepped run ih =>
    rw [ih (told.step stepped (fun _ => deems_any)) found, accepts_cons stepped.1]
    cases middle : t.db.getTask id with
    | some new => rw [asked_step told stepped middle, or_assoc]
    | none =>
      -- the task was not submitted yet, or it would be gone
      have missing : s.db.getTask id = none := by
        cases isRow : s.db.getTask id with
        | none => rfl
        | some row =>
          have written : s.db.written id ≠ [] := fun none => by
            have current := (told.sound.agrees id).current row isRow
            simp [none] at current
          have changes : Changes (fun _ => True) s.db t.db :=
            changes_step stepped.1 (fun _ _ => trivial)
          have used : t.db.written id ≠ [] := fun none => written (by
            have grows := changes.written_grows id
            rw [none] at grows
            exact List.prefix_nil.mp grows)
          have gone := gone_run (told.step stepped (fun _ => deems_any)) used middle run
          rw [gone] at found
          cases found
      have unasked : ¬ Asked s id := by
        rintro ⟨row, isRow, _⟩
        rw [missing] at isRow
        cases isRow
      have later : ¬ Asked t id := by
        rintro ⟨row, isRow, _⟩
        rw [middle] at isRow
        cases isRow
      have idle : ¬ Accepted s t id := by
        rintro ⟨row, _, isRow, _⟩
        rw [missing] at isRow
        cases isRow
      simp [unasked, later, idle]

/-- An act of the run wrote the exit code of the task and decided its status. -/
def Decided (config : Config) (initial : System) (acts : List Act) (t : System) (id : TaskId)
    (snapshot : Object)
    (status : TaskStatus) (code : Int) : Prop :=
  ∃ early act later u v before after, acts = early ++ act :: later ∧
    Run (Step config) initial early u ∧ Step config u act v ∧ Run (Step config) v later t ∧
    u.db.getTask id = some before ∧ before.exitCode = none ∧
    v.db.getTask id = some after ∧ after.exitCode = some code ∧
    Concludes config u id snapshot status code act

theorem decided_snoc {initial : System} {snapshot : Object} {status : TaskStatus} {code : Int}
    (stepped : Step config s act t)
    (decided : Decided config initial acts s id snapshot status code) :
    Decided config initial (acts ++ [act]) t id snapshot status code := by
  obtain ⟨early, decision, later, u, v, before, after, rfl, isEarly, decides, since, rest⟩ := decided
  exact ⟨early, decision, later ++ [act], u, v, before,
    after, by simp, isEarly, decides, since.snoc stepped, rest⟩

/-- Every exit code of a run was written by one of its acts, with the status that act decided. -/
theorem told_run {initial : System} (before : Run (Step config) initial early s)
    (told : Told (Decided config initial early s) s)
    (run : Run (Guarded (Step config) Timely) s acts t) :
    Told (Decided config initial (early ++ acts) t) t := by
  induction run generalizing early with
  | nil => rwa [List.append_nil]
  | @cons s act t acts u stepped _ ih =>
    rw [List.append_cons]
    refine ih (before.snoc stepped.1) ?_
    have carried : Told (Decided config initial (early ++ [act]) t) s :=
      told.mono (fun _ _ _ _ => decided_snoc stepped.1)
    refine carried.step stepped (fun id r n code isRow isNew unfinished exited decides => ?_)
    exact ⟨early, act, [], s, t, r, n, rfl, before, stepped.1, .nil t, isRow, unfinished, isNew,
      exited, decides⟩

/-- For every interleaving of the coroutines of a controller that serves, in which no stop is
recorded while a result is evaluated: a task whose interrupt was accepted ends cancelled with the
interrupt status, or lost with the lost status; another one succeeds exactly with exit code 0 and
shows the status that the act which wrote its exit code got from the evaluator or the result table,
or it is lost. -/
theorem outcome_agrees (run : Run (Guarded (Step config) Timely) (.initial boot wall receipt) acts t)
    {row : TaskRecord} (found : t.db.getTask id = some row) (ended : row.state.terminal = true) :
    (Accepts config id (.initial boot wall receipt) acts →
      row.state = .cancelled ∧ displayStatus row.pluginSnapshot .cancelled = some row.status ∨
      row.state = .lost ∧ displayStatus row.pluginSnapshot .lost = some row.status) ∧
    (¬ Accepts config id (.initial boot wall receipt) acts →
      (row.state = .succeeded ↔ row.exitCode = some 0) ∧ row.state ≠ .cancelled ∧
      ((∃ code, row.exitCode = some code ∧
          Decided config (.initial boot wall receipt) acts t id row.pluginSnapshot row.status code) ∨
        row.state = .lost ∧ displayStatus row.pluginSnapshot .lost = some row.status)) := by
  have told : Told (Decided config (.initial boot wall receipt) acts t) t :=
    told_run (.nil _) told_initial run
  have asked := asked_run told_initial run found
  have start : ¬ Asked (.initial boot wall receipt) id := by
    rintro ⟨_, impossible, _⟩
    cases impossible
  have stage : Asked t id ↔ row.interruptStage.isSome = true := by
    constructor
    · rintro ⟨r, same, isSome⟩
      rw [found] at same
      cases same
      exact isSome
    · exact fun isSome => ⟨row, found, isSome⟩
  rw [stage] at asked
  refine ⟨fun accepts => ?_, fun refused => ?_⟩
  · have isSome := asked.mpr (.inr accepts)
    cases told.agreed id row found with
    | unstopped live => obtain state | state | state := live <;> (rw [state] at ended; cases ended)
    | stopping state =>
      rw [state] at ended
      cases ended
    | cancelled state _ shown => exact .inl ⟨state, shown⟩
    | lost state _ shown => exact .inr ⟨state, shown⟩
    | judged code state unasked =>
      rw [unasked] at isSome
      cases isSome
  · have unasked : ¬ row.interruptStage.isSome = true := fun isSome =>
      (asked.mp isSome).elim start refused
    cases told.agreed id row found with
    | unstopped live => obtain state | state | state := live <;> (rw [state] at ended; cases ended)
    | stopping state =>
      rw [state] at ended
      cases ended
    | cancelled _ isSome => exact absurd isSome unasked
    | lost state unfinished shown =>
      refine ⟨?_, ?_, .inr ⟨state, shown⟩⟩
      · simp [state, unfinished]
      · simp [state]
    | judged code state _ exited shown =>
      refine ⟨?_, ?_, .inl ⟨code, exited, shown⟩⟩
      · rw [state, exited]
        by_cases zero : code = 0 <;> simp [zero]
      · rw [state]
        split <;> simp

/-- Whether a step is timely. -/
def System.timely (s : System) (act : Act) : Bool :=
  act.serves && match act with
    | .task id (.waitEvaluated _) => match (s.cells.get id).waiter with
      | some (.evaluating task _) => (s.db.getTask id).all (fun row =>
          row.interruptStage.isSome = task.interruptStage.isSome)
      | _ => true
    | _ => true

theorem timely_sound (s : System) (act : Act) (timely : s.timely act = true) : Timely s act := by
  obtain ⟨serves, decided⟩ := Bool.and_eq_true _ _ |>.mp timely
  refine ⟨serves, ?_⟩
  rintro id evaluation task code row rfl isWaiter found _
  simp only [isWaiter, found, Option.all_some] at decided
  exact (of_decide_eq_true decided).symm

/-- A unit runs and is waited for. -/
def unitWatched : List Act :=
  firstStart ++ [.submit "a" (.keyed []), .tick "" none, .task "a" .startBegin, .task "a" .accept,
    .task "a" (.startReturn 1), .task "a" .waitBegin]

def askStop : Act := .interrupt "a" ⟨2, two_seconds_range⟩ ⟨2, two_seconds_range⟩

/-- It ends, and its exit code is evaluated. -/
def unitEnds : List Act :=
  [.task "a" (.exit (.code 0)), .task "a" .waitReturn, .task "a" (.waitEvaluated .nothing)]

/-- It vanishes without an exit code while `wait` fails. -/
def unitVanishes : List Act :=
  [.task "a" (.exit .missing), .task "a" .waitRaise, .task "a" .waitQuery, .task "a" .waitResume]

theorem outcome_agrees_stopped : ∃ t row,
    Run (Guarded (Step (.plain .systemd)) Timely) (.initial "boot" "2026" .missing)
      (unitWatched ++ askStop :: unitEnds) t ∧
    t.db.getTask "a" = some row ∧ row.state = .cancelled ∧ row.exitCode = some 0 ∧
    displayStatus row.pluginSnapshot .cancelled = some row.status := by
  have evaluated : (checkedSteps (.plain .systemd) System.timely (.initial "boot" "2026" .missing)
      unitWatched).any (fun s => (s.db.getTask "a").any (fun row => row.state = .running) &&
        (checkedSteps (.plain .systemd) System.timely s [askStop]).any (fun m =>
          (m.db.getTask "a").any (fun row => row.state = .stopping) &&
          (checkedSteps (.plain .systemd) System.timely m unitEnds).any (fun t =>
            (t.db.getTask "a").any (fun row => row.state = .cancelled && row.exitCode = some 0)))) =
              true := by
    decide +kernel
  obtain ⟨s, first, both⟩ := Option.any_eq_true _ _ |>.mp evaluated
  obtain ⟨stored, rest⟩ := Bool.and_eq_true _ _ |>.mp both
  obtain ⟨m, asks, after⟩ := Option.any_eq_true _ _ |>.mp rest
  obtain ⟨halted, ends⟩ := Bool.and_eq_true _ _ |>.mp after
  obtain ⟨t, later, last⟩ := Option.any_eq_true _ _ |>.mp ends
  obtain ⟨row, isRow, runs⟩ := Option.any_eq_true _ _ |>.mp stored
  obtain ⟨new, isNew, stopping⟩ := Option.any_eq_true _ _ |>.mp halted
  obtain ⟨final, isFinal, facts⟩ := Option.any_eq_true _ _ |>.mp last
  obtain ⟨state, code⟩ := Bool.and_eq_true _ _ |>.mp facts
  have cancelled : final.state = .cancelled := of_decide_eq_true state
  have early := checked_run timely_sound first
  have asked := checked_run timely_sound asks
  have run := early.append (asked.append (checked_run timely_sound later))
  have accepted : Accepted s m "a" :=
    ⟨row, new, isRow, isNew, .inr ⟨.inr (of_decide_eq_true runs), of_decide_eq_true stopping⟩⟩
  have accepts : Accepts (.plain .systemd) "a" (.initial "boot" "2026" .missing)
      (unitWatched ++ askStop :: unitEnds) := by
    refine accepts_append early.unguarded ?_
    cases asked with
    | cons stepped rest =>
      cases rest
      exact ⟨m, stepped.1, .inl accepted⟩
  refine ⟨t, final, run, isFinal, cancelled, of_decide_eq_true code, ?_⟩
  obtain ⟨_, shown⟩ | ⟨lost, _⟩ :=
    (outcome_agrees run isFinal (by rw [cancelled]; rfl)).1 accepts
  · exact shown
  · rw [cancelled] at lost
    cases lost

/-- A running unit is asked to stop and is then lost: it shows the lost status. -/
theorem lost_shows_lost : ∃ s m t row new last,
    Run (Step (.plain .systemd)) (.initial "boot" "2026" .missing) unitWatched s ∧
    Step (.plain .systemd) s askStop m ∧ Run (Step (.plain .systemd)) m unitVanishes t ∧
    s.db.getTask "a" = some row ∧ row.state = .running ∧
    m.db.getTask "a" = some new ∧ new.state = .stopping ∧
    t.db.getTask "a" = some last ∧ last.state = .lost ∧
    displayStatus last.pluginSnapshot .cancelled ≠ some last.status := by
  have evaluated : (steps (.plain .systemd) (.initial "boot" "2026" .missing) unitWatched).any (fun s =>
      (s.db.getTask "a").any (fun row => row.state = .running) &&
      (step (.plain .systemd) s askStop).any (fun m =>
        (m.db.getTask "a").any (fun new => new.state = .stopping) &&
        (steps (.plain .systemd) m unitVanishes).any (fun t =>
          (t.db.getTask "a").any (fun last => last.state = .lost &&
            displayStatus last.pluginSnapshot .cancelled ≠ some last.status)))) = true := by
    decide +kernel
  obtain ⟨s, first, both⟩ := Option.any_eq_true _ _ |>.mp evaluated
  obtain ⟨stored, rest⟩ := Bool.and_eq_true _ _ |>.mp both
  obtain ⟨m, asks, after⟩ := Option.any_eq_true _ _ |>.mp rest
  obtain ⟨halted, ends⟩ := Bool.and_eq_true _ _ |>.mp after
  obtain ⟨t, later, final⟩ := Option.any_eq_true _ _ |>.mp ends
  obtain ⟨row, isRow, runs⟩ := Option.any_eq_true _ _ |>.mp stored
  obtain ⟨new, isNew, stopping⟩ := Option.any_eq_true _ _ |>.mp halted
  obtain ⟨last, isLast, facts⟩ := Option.any_eq_true _ _ |>.mp final
  obtain ⟨state, shown⟩ := Bool.and_eq_true _ _ |>.mp facts
  exact ⟨s, m, t, row, new, last, steps_run first, asks, steps_run later, isRow, of_decide_eq_true runs,
    isNew, of_decide_eq_true stopping, isLast, of_decide_eq_true state, of_decide_eq_true shown⟩

end Runs
end LocalFlow
