import LocalFlow.Service.Effects
import LocalFlow.Lifecycle

/-! A waiter leaves its task only after the end of the task, as long as every row can be shown and
every evaluated result can be encoded. -/
namespace LocalFlow
variable {config : Config} {backend : Backend} {moment : Moment} {id : TaskId} {slot next : Slot}

/-- The evaluator left nothing that JSON cannot encode. -/
def Evaluation.Encodable : Evaluation → Prop
  | .result _ none => False
  | _ => True

theorem Evaluation.Encodable.custom {evaluation : Evaluation} (encodes : evaluation.Encodable)
    (configured : Bool) (task : TaskRecord) (code : Int) :
    ∃ custom, (evaluateResult configured task code evaluation).custom = some custom := by
  unfold evaluateResult
  split
  · exact ⟨_, rfl⟩
  · cases evaluation with
    | nothing => exact ⟨_, rfl⟩
    | raised error => exact ⟨_, rfl⟩
    | result status custom =>
      cases custom with
      | none => exact absurd encodes not_false
      | some fields =>
        dsimp only
        split <;> exact ⟨_, rfl⟩

@[simp] theorem mem_liveStates {state : TaskState} : state ∈ liveStates ↔ state.active = true :=
  mem_activeStates

/-- The task has no row that a coroutine could still end. -/
def Done (row : Option TaskRecord) : Prop := ∀ r, row = some r → r.state.active = false

/-- A row in a terminal state is done. -/
theorem done_terminal {row : Option TaskRecord} {r : TaskRecord} (found : row = some r)
    (ended : r.state.terminal = true) : Done row := by
  intro other same
  rw [found] at same
  cases same
  cases active : r.state.active with
  | false => rfl
  | true =>
    rw [TaskState.active_not_terminal active] at ended
    cases ended

theorem done_none {row : Option TaskRecord} (missing : row = none) : Done row := by
  intro other same
  rw [missing] at same
  cases same

/-- A transition from the live states into a terminal one ends every row that can be shown. -/
theorem Writes.done {expected : List TaskState} {state : TaskState} {fields : List Field}
    {row new : Option TaskRecord} (writes : Writes expected state fields row new)
    (shown : ∀ r, row = some r → Displayable r.pluginSnapshot)
    (expects : ∀ s, s.active = true → s ∈ expected) (ended : state.terminal = true) : Done new := by
  cases writes with
  | same row why =>
    intro r found
    cases active : r.state.active with
    | false => rfl
    | true => exact absurd (shown r found) (why r found (expects r.state active))
  | moved old status _ => exact done_terminal rfl ended

theorem wait_expects (state : TaskState) (active : state.active = true) :
    state ∈ [TaskState.running, .starting, .stopping] := by
  cases state <;> first | (cases active; done) | decide

section Waiters
variable (shown : ∀ r, slot.db.getTask id = some r → Displayable r.pluginSnapshot)

theorem collected_kept (code : Int) : (slot.collected id code).cell.waiter.isSome = true ∨
    Done ((slot.collected id code).db.getTask id) := by
  unfold Slot.collected
  split
  · rename_i missing
    exact .inr (done_none missing)
  · rename_i task found
    split
    · rename_i ended
      exact .inr (done_terminal found ended)
    · exact .inl rfl

include shown

theorem waitResume_kept (failures : Nat) (current : TaskRecord) (running : Bool) :
    (slot.waitResume backend moment id failures current running).cell.waiter.isSome = true ∨
      Done ((slot.waitResume backend moment id failures current running).db.getTask id) := by
  unfold Slot.waitResume
  split
  · exact .inl rfl
  · split
    · exact .inl rfl
    · split
      · exact collected_kept _
      · exact .inr ((row_transition slot moment id _ _ _ _).done shown wait_expects rfl)

theorem waitEvaluated_kept (task : TaskRecord) (code : Int) {verdict : Verdict} {custom : Object}
    (encoded : verdict.custom = some custom) :
    Done ((slot.waitEvaluated moment id task code verdict).db.getTask id) := by
  unfold Slot.waitEvaluated
  rw [encoded]
  dsimp only
  generalize isNoted : (if verdict.failed = true then slot.event moment id _ else slot) = noted
  have row : noted.db.getTask id = slot.db.getTask id := by
    rw [← isNoted]
    split <;> rfl
  have writes := row_transition noted moment id [.running, .starting, .stopping]
    (Slot.resultState task code) [.endedAt moment.now, .exitCode code, .logSize moment.logSize,
      .elapsedSeconds (elapsed moment task), .customJson custom] verdict.statusOverride
  rw [row] at writes
  exact writes.done shown wait_expects (resultState_terminal task code)

/-- After a step of `_wait` the waiter is still there, or the task is done. -/
theorem waitStep_kept {waiter : Option Waiter} {act : TaskAct}
    (stepped : slot.waitStep config moment id waiter act = some next)
    (encodes : ∀ evaluation, act = .waitEvaluated evaluation → evaluation.Encodable) :
    next.cell.waiter.isSome = true ∨ Done (next.db.getTask id) := by
  unfold Slot.waitStep at stepped
  split at stepped
  · cases stepped
    exact .inl rfl
  · split at stepped <;> cases stepped
    exact collected_kept _
  · cases stepped
    unfold Slot.waitRaise
    dsimp only
    split
    · rename_i missing
      exact .inr (done_none missing)
    · exact .inl rfl
  · cases stepped
    exact .inl rfl
  · cases stepped
    exact .inl rfl
  · cases stepped
    exact waitResume_kept shown _ _ _
  · split at stepped <;> cases stepped
    exact .inl rfl
  · rename_i task code evaluation
    cases stepped
    obtain ⟨custom, encoded⟩ := (encodes evaluation rfl).custom config.hasEvaluator task code
    exact .inr (waitEvaluated_kept shown task code encoded)
  · cases stepped

end Waiters

section Starters

/-- `_start` never takes a waiter away. -/
theorem startStep_kept {starter : Option Starter} {act : TaskAct}
    (stepped : slot.startStep config moment id starter act = some next)
    (watched : slot.cell.waiter.isSome = true) : next.cell.waiter.isSome = true := by
  unfold Slot.startStep at stepped
  split at stepped
  · cases stepped
    unfold Slot.startBegin
    split <;> exact watched
  · split at stepped <;> cases stepped
    unfold Slot.startReturn
    split
    · exact watched
    · rfl
  · split at stepped <;> cases stepped
    exact watched
  · cases stepped

end Starters

/-- A step of a task leaves its waiter in place, or the task is done. -/
theorem taskStep_kept {act : TaskAct} (stepped : slot.taskStep config moment id act = some next)
    (encodes : ∀ evaluation, act = .waitEvaluated evaluation → evaluation.Encodable)
    (shown : ∀ r, slot.db.getTask id = some r → Displayable r.pluginSnapshot)
    (watched : slot.cell.waiter.isSome = true) :
    next.cell.waiter.isSome = true ∨ Done (next.db.getTask id) := by
  cases steps_taskStep stepped with
  | tree tree => exact .inl watched
  | start started => exact .inl (startStep_kept started watched)
  | wait waited => exact waitStep_kept shown waited encodes
  | stop sequence isSequence stopped =>
    obtain ⟨_, isCell⟩ := (stops_stopStep stopped).cell
    rw [isCell]
    exact .inl watched

section Runs
open Transition
variable {s t : System} {acts : List Act}

theorem displays_step {act : Act} (stepped : Step config s act t)
    (shown : ∀ draft ∈ act.drafts, Displayable draft.pluginSnapshot) (displays : s.db.Displays) :
    t.db.Displays :=
  have changes : Changes (fun draft => Displayable draft.pluginSnapshot) s.db t.db :=
    changes_step stepped shown
  changes.displays (fun _ shown => shown) displays

/-- Drafts that can be shown make rows that can be shown. -/
theorem displays_run (run : Run (Step config) s acts t)
    (shown : ∀ act ∈ acts, ∀ draft ∈ act.drafts, Displayable draft.pluginSnapshot)
    (displays : s.db.Displays) : t.db.Displays := by
  induction run with
  | nil => exact displays
  | cons stepped _ ih =>
    exact ih (fun act member => shown act (List.mem_cons_of_mem _ member))
      (displays_step stepped (shown _ List.mem_cons_self) displays)

theorem displays_empty : Db.empty.Displays := by
  intro _ _ found
  cases found

end Runs
end LocalFlow
