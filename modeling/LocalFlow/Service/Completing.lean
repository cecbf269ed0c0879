import LocalFlow.Service.Host
import LocalFlow.Service.Sound
import LocalFlow.Service.Columns

/-! The end of a task whose unit has ended: what `_wait` and `recover` write for it, and what is left
for them to find. -/
namespace LocalFlow
open Transition
variable {config : Config} {s t : System} {act : Act} {id : TaskId} {recovery : Recovery}

/-- What a client sees of the end of a task. -/
structure Ending where
  state : TaskState
  exitCode : Option Int
  status : TaskStatus
  custom : Object

def TaskRecord.ending (row : TaskRecord) : Ending := ⟨row.state, row.exitCode, row.status, row.custom⟩

section Outcomes
variable {evaluator : TaskRecord → Int → Evaluation} {row task new : TaskRecord} {code : Int}

/-- The end of a task with an exit code. The evaluator answers from the task, its log size and its
blocking note apart. -/
def completion (config : Config) (evaluator : TaskRecord → Int → Evaluation) (row : TaskRecord)
    (code : Int) : Option Ending :=
  let verdict := evaluateResult config.hasEvaluator row code (evaluator row.core code)
  verdict.custom.bind (fun custom =>
    (verdict.statusOverride <|> displayStatus row.pluginSnapshot (Slot.resultState row code)
      (some code) row.interruptStage).map (fun status =>
        ⟨Slot.resultState row code, some code, status, custom⟩))

/-- The end of a task that is given up. -/
def vanished (row : TaskRecord) : Option Ending :=
  (displayStatus row.pluginSnapshot .lost).map (fun status => ⟨.lost, row.exitCode, status, row.custom⟩)

theorem ending_core (same : new.core = row.core) : new.ending = row.ending := by
  have outcome := congrArg TaskRecord.ending same
  exact outcome

theorem completion_core (same : task.core = row.core) :
    completion config evaluator task code = completion config evaluator row code := by
  have completion := congrArg (fun r => completion config evaluator r code) same
  exact completion

theorem vanished_core (same : task.core = row.core) : vanished task = vanished row := by
  have vanished := congrArg vanished same
  exact vanished

theorem stage_core (same : task.core = row.core) : task.interruptStage = row.interruptStage := by
  have stage := congrArg (fun r => r.interruptStage) same
  exact stage

/-- A row that has ended is not written again. -/
theorem Transits.terminal {expected : List TaskState} {state : TaskState} {fields : List Field}
    {override : Option TaskStatus} {after : Option TaskRecord}
    (live : ∀ state ∈ expected, state.active = true) (ended : row.state.terminal = true)
    (transits : Transits expected state fields override (some row) after) : after = some row := by
  cases transits with
  | same => rfl
  | moved r status expects =>
    have active := live _ expects
    rw [TaskState.active_not_terminal active] at ended
    cases ended

variable {expected : List TaskState} {now : String} {bytes : Nat} {seconds : Option Seconds}
  {custom : Object} {after : Option TaskRecord}

/-- The transition with an evaluated result completes the task. -/
theorem Transits.completes (same : task.core = row.core)
    (encoded : (evaluateResult config.hasEvaluator task code (evaluator task.core code)).custom =
      some custom)
    (transits : Transits expected (Slot.resultState task code) [.endedAt now, .exitCode code,
      .logSize bytes, .elapsedSeconds seconds, .customJson custom]
      (evaluateResult config.hasEvaluator task code (evaluator task.core code)).statusOverride
      (some row) after) :
    after = some row ∨ ∃ n, after = some n ∧ n.state.terminal = true ∧
      completion config evaluator row code = some n.ending := by
  cases transits with
  | same => exact .inl rfl
  | moved r status _ shown =>
    refine .inr ⟨_, rfl, resultState_terminal task code, ?_⟩
    have display : ((evaluateResult config.hasEvaluator task code
      (evaluator task.core code)).statusOverride <|>
        displayStatus row.pluginSnapshot (Slot.resultState task code) (some code) row.interruptStage) =
          some status := shown
    have snapshot : row.pluginSnapshot = task.pluginSnapshot := by
      have snapshots := congrArg (fun r => r.pluginSnapshot) same
      exact snapshots.symm
    rw [snapshot, ← stage_core same] at display
    rw [← completion_core same]
    simp only [completion, encoded, Option.bind_some, display, Option.map_some, Option.some.injEq]
    rfl

/-- A stopped task that is cancelled with an exit code is completed with it. -/
theorem Transits.cancels {fields : List Field} (asked : row.interruptStage.isSome = true)
    (exits : (row.assign fields).exitCode = some code)
    (silent : (row.assign fields).interruptStage = row.interruptStage)
    (kept : (row.assign fields).custom = row.custom)
    (transits : Transits expected .cancelled fields none (some row) after) :
    after = some row ∨ ∃ n, after = some n ∧ n.state.terminal = true ∧
      completion config evaluator row code = some n.ending := by
  cases transits with
  | same => exact .inl rfl
  | moved r status _ shown =>
    refine .inr ⟨_, rfl, rfl, ?_⟩
    rw [exits, silent] at shown
    have state : Slot.resultState row code = .cancelled := if_pos asked
    have verdict : evaluateResult config.hasEvaluator row code (evaluator row.core code) =
        ⟨none, some row.custom, false⟩ := by
      unfold evaluateResult
      rw [asked]
      rfl
    have display : displayStatus row.pluginSnapshot .cancelled (some code) row.interruptStage =
        some status := shown
    have outcome : (row.moved .cancelled fields status).ending =
        ⟨.cancelled, some code, status, row.custom⟩ := by
      change Ending.mk .cancelled (row.assign fields).exitCode status (row.assign fields).custom = _
      rw [exits, kept]
    rw [outcome]
    simp [completion, verdict, state, display]

theorem Transits.loses {fields : List Field} (silent : (row.assign fields).exitCode = row.exitCode)
    (kept : (row.assign fields).custom = row.custom)
    (transits : Transits expected .lost fields none (some row) after) :
    after = some row ∨ ∃ n, after = some n ∧ n.state.terminal = true ∧
      vanished row = some n.ending := by
  cases transits with
  | same => exact .inl rfl
  | moved r status _ shown =>
    refine .inr ⟨_, rfl, rfl, ?_⟩
    have display : displayStatus row.pluginSnapshot .lost = some status := shown
    have outcome : (row.moved .lost fields status).ending =
        ⟨.lost, row.exitCode, status, row.custom⟩ := by
      change Ending.mk .lost (row.assign fields).exitCode status (row.assign fields).custom = _
      rw [silent, kept]
    rw [outcome, vanished, display]
    rfl

end Outcomes

section Cells

/-- Nothing happens to a task without coroutines whose tree is gone. -/
theorem taskStep_gone {slot : Slot} {moment : Moment} {record : ExitRecord} {a : TaskAct}
    (gone : slot.cell = { tree := .gone record }) : slot.taskStep config moment id a = none := by
  cases a <;> simp [Slot.taskStep, Slot.treeStep, Slot.startStep, Slot.waitStep, gone, Tree.owns]

theorem recoverStep_cell {a : RecoverAct}
    (unfinished : ∀ fails cutoff faults, a ≠ .finish fails cutoff faults)
    (stepped : s.recoverStep config recovery a = some t) (id : TaskId) :
    t.cells.get id = s.cells.get id ∨
    t.cells.get id = { tree := (s.cells.get id).tree.orphan config.backend } ∨
    ∃ task completed, recovery.point = .probing task completed (some true) ∧ task.id = id := by
  have settled : ∀ {middle u : System} {after : Recovery} {target : TaskId} {state : TaskState}
      {fields : List Field} {override : Option TaskStatus} {extra : Option String},
      middle.cells = s.cells →
        u = middle.settleRecovered config after target state fields override extra →
      u.cells.get id = s.cells.get id ∨
      u.cells.get id = { tree := (s.cells.get id).tree.orphan config.backend } ∨
      ∃ task completed, recovery.point = .probing task completed (some true) ∧ task.id = id := by
    rintro middle u after target state fields override extra same rfl
    unfold System.settleRecovered
    split
    · rw [← same]
      exact .inr (.inl get_crash)
    · exact .inl (congrArg (Dict.get · id) same)
  unfold System.recoverStep at stepped
  split at stepped
  · unfold System.recoverNext at stepped
    split at stepped
    · obtain ⟨key, _, rfl⟩ := Option.map_eq_some_iff.mp stepped
      exact .inl rfl
    · dsimp only at stepped
      split at stepped
      · cases stepped
        exact settled rfl rfl
      · split at stepped <;> cases stepped
        · exact .inr (.inl get_crash)
        · exact .inl rfl
  · cases stepped
    exact .inl rfl
  · cases stepped
    exact .inr (.inl get_crash)
  · rename_i task completed running point
    cases stepped
    unfold System.recoverResume
    split
    · exact .inl rfl
    · by_cases here : task.id = id
      · exact .inr (.inr ⟨task, completed, point, here⟩)
      · refine .inl ?_
        simp only [System.put, Dict.get_set, if_neg (Ne.symm here)]
    · split <;> exact settled rfl rfl
  · cases stepped
    unfold System.recoverEvaluated
    dsimp only
    split
    · refine .inr (.inl ?_)
      split <;> exact get_crash
    · refine settled ?_ rfl
      split <;> rfl
  · exact absurd rfl (unfinished _ _ _)
  · cases stepped

/-- What a host without a controller does. -/
theorem down_step (phase : s.phase = .down) (stepped : Step config s act t) :
    (∃ id a slot, act = .task id a ∧ (s.slot id).taskStep config (s.moment id) id a = some slot ∧
      t = s.put id slot) ∨
    (t.db = s.db ∧ t.cells = s.cells ∧ t.phase = .down ∧ act.survives = true) ∨
    act.survives = false ∨ ∃ readable, act = .recoverBegin readable := by
  unfold Step step at stepped
  rw [phase] at stepped
  split at stepped
  · rename_i id a
    obtain ⟨slot, moved, rfl⟩ := Option.map_eq_some_iff.mp stepped
    exact .inl ⟨id, a, slot, rfl, moved, rfl⟩
  · rename_i impossible
    cases impossible
  · rename_i impossible
    cases impossible
  · rename_i impossible
    cases impossible
  · cases stepped
    exact .inr (.inl ⟨rfl, rfl, phase, rfl⟩)
  · split at stepped <;> cases stepped
    exact .inr (.inl ⟨rfl, rfl, rfl, rfl⟩)
  · rename_i impossible
    cases impossible
  · rename_i impossible
    cases impossible
  · exact .inr (.inr (.inl rfl))
  · exact .inr (.inr (.inl rfl))
  · exact .inr (.inr (.inr ⟨_, rfl⟩))
  · rename_i impossible
    cases impossible
  · rename_i impossible
    cases impossible
  · rename_i impossible
    cases impossible
  · cases stepped

end Cells
section Stops
variable {row new : Option TaskRecord}

/-- A task that is stopping has a stage. -/
def Halting (row : Option TaskRecord) : Prop :=
  ∀ r, row = some r → r.state = .stopping → r.interruptStage.isSome = true

theorem Halts.halting (halts : Halts row new) (halting : Halting row) : Halting new := by
  cases halts with
  | same => exact halting
  | stopping =>
    intro r found _
    cases found
    rfl

theorem Transits.halting {expected : List TaskState} {state : TaskState} {fields : List Field}
    {override : Option TaskStatus} (other : state ≠ .stopping) (halting : Halting row)
    (transits : Transits expected state fields override row new) : Halting new := by
  cases transits with
  | same => exact halting
  | moved =>
    intro r found stopping
    cases found
    exact absurd stopping other

theorem StopColumns.halting (columns : StopColumns row new) (halting : Halting row) : Halting new := by
  cases columns with
  | halts halts => exact halts.halting halting
  | confirmed _ _ _ _ transits => exact transits.halting (by simp) halting

theorem halting_interrupt (moment : Moment) (id : TaskId) (slot : Slot) (sigint sigterm : Grace)
    (halting : Halting (slot.db.getTask id)) :
    Halting ((slot.interrupt moment id sigint sigterm).1.db.getTask id) := by
  cases interrupt_columns moment id slot sigint sigterm with
  | same same =>
    rw [same]
    exact halting
  | frozen r stop found isNew =>
    intro n isRow stopping
    have same := Option.some.inj (isNew.symm.trans isRow)
    subst same
    exact halting r found stopping
  | queued now transits => exact transits.halting (by simp) halting
  | requested r stop status found live _ isNew =>
    intro n isRow _
    have same := Option.some.inj (isNew.symm.trans isRow)
    subst same
    rfl

theorem Kept.halting (kept : Kept config s t id) (halting : Halting (s.db.getTask id)) :
    Halting (t.db.getTask id) := by
  intro n found stopping
  obtain ⟨old, isOld, same⟩ := kept.row found
  rw [← stage_core same]
  exact halting old isOld ((core_state same).trans stopping)

theorem terminal_ne_stopping {state : TaskState} (terminal : state.terminal = true) :
    state ≠ .stopping := by
  rintro rfl
  cases terminal

theorem halting_step (halting : ∀ id, Halting (s.db.getTask id)) (stepped : Step config s act t)
    (id : TaskId) : Halting (t.db.getTask id) := by
  cases moved_step stepped id with
  | kept kept => exact kept.halting (halting id)
  | started _ _ new _ _ found starting =>
    intro n isNew stopping
    rw [found] at isNew
    cases isNew
    rw [starting] at stopping
    cases stopping
  | enrolled new _ _ found queued =>
    intro n isNew stopping
    rw [found] at isNew
    cases isNew
    rw [queued] at stopping
    cases stopping
  | own a next _ task view =>
    have row : t.db.getTask id = next.db.getTask id := congrArg View.row view
    rw [row]
    cases steps_taskStep task with
    | tree => exact halting id
    | start started =>
      cases startStep_columns started with
      | same same => exact same ▸ halting id
      | launched _ _ transits => exact transits.halting (by simp) (halting id)
      | failed _ _ _ _ transits => exact transits.halting (by simp) (halting id)
    | wait waited =>
      cases waitStep_columns waited with
      | same same => exact same ▸ halting id
      | lost _ _ _ _ _ _ transits => exact transits.halting (by simp) (halting id)
      | evaluated task code _ _ _ _ _ _ _ _ transits =>
        exact transits.halting (terminal_ne_stopping (resultState_terminal task code)) (halting id)
    | stop sequence _ stopped => exact (stopStep_columns stopped).halting (halting id)
  | asked sigint sigterm _ view =>
    have row : t.db.getTask id = _ := congrArg View.row view
    rw [row]
    exact halting_interrupt (s.moment id) id (s.slot id) sigint sigterm (halting id)
  | crashed middle kept row =>
    rw [row]
    exact kept.halting (halting id)
  | settled _ _ _ _ _ state fields terminal writes =>
    have before : Halting (s.db.getTask id) := halting id
    generalize s.db.getTask id = row, t.db.getTask id = after at writes before
    intro n isNew stopping
    cases writes with
    | same => exact before n isNew stopping
    | moved =>
      cases isNew
      exact absurd stopping (terminal_ne_stopping terminal)
  | watched _ _ _ _ _ _ row =>
    rw [row]
    exact halting id
  | closed a isAct chain =>
    have linked : ∀ v w, Relation.ReflTransGen (Closes id) v w → Halting v.row → Halting w.row := by
      intro v w chain before
      induction chain with
      | refl => exact before
      | tail _ closes ih =>
        cases closes with
        | asked slot moment sigint sigterm => exact halting_interrupt moment id slot sigint sigterm ih
        | cancelled => exact ih
        | forced view row stops => exact stops.halts.halting ih
    exact linked _ _ chain (halting id)
  | confirmed _ _ _ _ result _ _ confirming view =>
    have row : t.db.getTask id = _ := congrArg View.row view
    rw [row]
    exact (confirmStep_columns confirming).stop.halting (halting id)

theorem halting_run {boot wall : String} {receipt : Receipt} {acts : List Act}
    (run : Run (Step config) (.initial boot wall receipt) acts s) (id : TaskId) :
    Halting (s.db.getTask id) := by
  refine run.invariant (P := fun u => ∀ id, Halting (u.db.getTask id))
    (fun halting stepped => halting_step halting stepped) (fun id r found => ?_) id
  cases found

end Stops
end LocalFlow
