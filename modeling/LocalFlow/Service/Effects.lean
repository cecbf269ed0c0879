import LocalFlow.Service.Views
import Mathlib.Data.Rat.Floor

/-! What the steps of the coroutines leave in the row and the cell of their task: one lemma for each
function of the service. -/
namespace LocalFlow
variable {config : Config} {backend : Backend} {moment : Moment} {id : TaskId} {slot next : Slot}

namespace Slot
variable (slot) (moment : Moment) (id : TaskId)

@[simp] theorem cell_event (kind : String) : (slot.event moment id kind).cell = slot.cell := rfl

@[simp] theorem row_event (kind : String) :
    (slot.event moment id kind).db.getTask = slot.db.getTask := rfl

@[simp] theorem cell_transition (expected : List TaskState) (state : TaskState) (fields : List Field)
    (override : Option TaskStatus) :
    (slot.transition moment id expected state fields override).cell = slot.cell := rfl

@[simp] theorem cell_withStarter (starter : Option Starter) :
    (slot.withStarter starter).cell = { slot.cell with starter } := rfl

@[simp] theorem cell_withWaiter (waiter : Option Waiter) :
    (slot.withWaiter waiter).cell = { slot.cell with waiter } := rfl

@[simp] theorem cell_withTree (tree : Tree) : (slot.withTree tree).cell = { slot.cell with tree } := rfl

@[simp] theorem cell_withSequence (sequence : Option Sequence) :
    (slot.withSequence sequence).cell = { slot.cell with sequence } := rfl

@[simp] theorem db_withStarter (starter : Option Starter) :
    (slot.withStarter starter).db = slot.db := rfl

@[simp] theorem db_withWaiter (waiter : Option Waiter) : (slot.withWaiter waiter).db = slot.db := rfl

@[simp] theorem db_withTree (tree : Tree) : (slot.withTree tree).db = slot.db := rfl

@[simp] theorem db_withSequence (sequence : Option Sequence) :
    (slot.withSequence sequence).db = slot.db := rfl

@[simp] theorem db_suspend (point : SequencePoint) : (slot.suspend point).db = slot.db := rfl

@[simp] theorem cell_suspend (point : SequencePoint) : (slot.suspend point).cell = { slot.cell with
    sequence := some ⟨point, slot.cell.sequence.any Sequence.advance⟩ } := rfl

end Slot

theorem row_transition (slot : Slot) (moment : Moment) (id : TaskId) (expected : List TaskState)
    (state : TaskState) (fields : List Field) (override : Option TaskStatus) :
    Writes expected state fields (slot.db.getTask id)
      ((slot.transition moment id expected state fields override).db.getTask id) :=
  transition_writes _ _ _ _ _ _ _

section Stops

/-- The row after stages of a stop were recorded. -/
inductive Halts : Option TaskRecord → Option TaskRecord → Prop where
  | same (row : Option TaskRecord) : Halts row row
  | stopping (row : TaskRecord) (status : TaskStatus) (stage : InterruptStage)
      (live : row.state ∈ liveStates) :
      Halts (some row) (some (row.moved .stopping [.interruptStage stage] status))

theorem Writes.halts {stage : InterruptStage} {row new : Option TaskRecord}
    (writes : Writes liveStates .stopping [.interruptStage stage] row new) : Halts row new := by
  cases writes with
  | same => exact .same _
  | moved row status live => exact .stopping row status stage live

/-- No signal is owed to the task any more, or its row cannot be written. -/
def Quit (row : Option TaskRecord) : Prop :=
  ∀ r, row = some r → r.state.terminal = true ∨ ¬ Displayable r.pluginSnapshot

/-- How far a stop is from its SIGKILL. The first component counts stages, the second the looks at
the row within a stage. -/
def SequencePoint.rank : SequencePoint → ℕ ×ₗ ℕ
  | .created _ _ => toLex (20, 0)
  | .applying actions index _ _ => toLex (2 * (actions.length - index) + 3, 0)
  | .polling actions index poll =>
    toLex (2 * (actions.length - index) + 2, ⌈(poll.hardDeadline - poll.wake) * 20⌉.toNat)
  | .settling left _ => toLex (2, left)
  | .killing => toLex (1, 0)
  | _ => toLex (0, 0)

/-- The points of a stop before its confirmation. -/
def SequencePoint.Stage : SequencePoint → Prop
  | .applying _ _ _ _ | .polling _ _ _ | .settling _ _ | .killing => True
  | _ => False

/-- A step of `_interrupt_sequence` before its confirmation: only the row and the sequence change,
and a sequence that goes on is below the given rank. -/
structure Staged (id : TaskId) (bound : ℕ ×ₗ ℕ) (slot next : Slot) : Prop where
  cell : ∃ sequence, next.cell = { slot.cell with sequence }
  row : Halts (slot.db.getTask id) (next.db.getTask id)
  sequence : next.cell.sequence = none ∧ Quit (next.db.getTask id) ∨
    ∃ point advance, next.cell.sequence = some ⟨point, advance⟩ ∧ point.Stage ∧ point.rank < bound

namespace Staged
variable {low high : ℕ ×ₗ ℕ}

theorem mono (staged : Staged id low slot next) (le : low ≤ high) : Staged id high slot next := by
  refine ⟨staged.cell, staged.row, staged.sequence.imp_right ?_⟩
  rintro ⟨point, advance, isSequence, stage, below⟩
  exact ⟨point, advance, isSequence, stage, below.trans_le le⟩

/-- Only the sequence of the slot it began with was touched before. -/
theorem after {early : Slot} (staged : Staged id low early next)
    (cell : ∃ sequence, early.cell = { slot.cell with sequence })
    (row : early.db.getTask id = slot.db.getTask id) : Staged id low slot next := by
  obtain ⟨first, isFirst⟩ := cell
  obtain ⟨second, isSecond⟩ := staged.cell
  exact ⟨⟨second, by rw [isSecond, isFirst]⟩, row ▸ staged.row, staged.sequence⟩

theorem quit (ended : Quit (slot.db.getTask id)) : Staged id low slot (slot.withSequence none) :=
  ⟨⟨none, rfl⟩, .same _, .inl ⟨rfl, ended⟩⟩

theorem suspend {point : SequencePoint} (stage : point.Stage) (below : point.rank < low) :
    Staged id low slot (slot.suspend point) :=
  ⟨⟨_, rfl⟩, .same _, .inr ⟨point, _, rfl, stage, below⟩⟩

/-- A stage is recorded, and the sequence goes on at a point; it ends if the row cannot be
written. -/
theorem record {point : SequencePoint} (stage : InterruptStage) (now : String)
    (isStage : point.Stage) (below : point.rank < low) : Staged id low slot
      (match slot.db.transition now id liveStates .stopping [.interruptStage stage] with
        | (db, .raised) => { slot with db }.withSequence none
        | (db, _) => { slot with db }.suspend point) := by
  obtain ⟨raised, row, found, hidden⟩ | ⟨refused, _⟩ | ⟨row, status, found, live, moved⟩ :=
    slot.db.transition_cases now id liveStates .stopping [.interruptStage stage] none
  · rw [raised]
    refine quit (fun r same => .inr ?_)
    rw [found] at same
    exact Option.some.inj same ▸ hidden
  · rw [refused]
    exact suspend isStage below
  · rw [moved]
    refine ⟨⟨_, rfl⟩, ?_, .inr ⟨point, _, rfl, isStage, below⟩⟩
    rw [Slot.db_suspend, Db.getTask_move, if_pos rfl, found]
    exact .stopping row status stage live

end Staged

theorem quit_none {row : Option TaskRecord} (missing : row = none) : Quit row := by
  intro r found
  rw [missing] at found
  cases found

theorem quit_terminal {row : Option TaskRecord} {r : TaskRecord} (found : row = some r)
    (ended : r.state.terminal = true) : Quit row := by
  intro other same
  rw [found] at same
  exact .inl (Option.some.inj same ▸ ended)

theorem staged_settle (left : Nat) :
    Staged id (toLex (2, left)) slot (slot.settle moment id left) := by
  unfold Slot.settle
  split
  · exact .quit (quit_none ‹_›)
  · split
    · exact .quit (quit_terminal ‹_› ‹_›)
    · split
      · exact .record .sigkill moment.now trivial (by simp [SequencePoint.rank, Prod.Lex.lt_iff])
      · exact .suspend trivial (by simp [SequencePoint.rank, Prod.Lex.lt_iff])

theorem staged_nextAction (actions : List StopAction) (index : Nat) :
    Staged id (toLex (2 * (actions.length - index) + 3, 1)) slot
      (slot.nextAction moment id actions index) := by
  unfold Slot.nextAction
  split
  · refine (staged_settle 10).mono ?_
    rw [Prod.Lex.le_iff]
    exact .inl (by simp)
  · split
    · exact .quit (quit_none ‹_›)
    · split
      · exact .quit (quit_terminal ‹_› ‹_›)
      · exact .record _ moment.now trivial (by simp [SequencePoint.rank, Prod.Lex.lt_iff])

theorem readOutput_hardDeadline (action : StopAction) (poll : Poll) :
    (Slot.readOutput moment action poll).1.hardDeadline = poll.hardDeadline := by
  unfold Slot.readOutput
  split
  · rfl
  · dsimp only
    split
    · rfl
    · split <;> rfl

/-- The looks left until the hard deadline. -/
theorem looks_decrease {hard now : Seconds} (before : now < hard) :
    ⌈(hard - (now + 1 / 20)) * 20⌉.toNat < ⌈(hard - now) * 20⌉.toNat := by
  have positive : 0 < ⌈(hard - now) * 20⌉ := Int.ceil_pos.mpr (by linarith)
  have shifted : (hard - (now + 1 / 20)) * 20 = (hard - now) * 20 - 1 := by ring
  have less : ⌈(hard - (now + 1 / 20)) * 20⌉ = ⌈(hard - now) * 20⌉ - 1 := by
    rw [shifted, Int.ceil_sub_one]
  omega

/-- The next action comes before another look at this one. -/
theorem rank_next {actions : List StopAction} {index looks : Nat} (here : index < actions.length) :
    toLex (2 * (actions.length - (index + 1)) + 3, 1) ≤
      toLex (2 * (actions.length - index) + 2, looks) := by
  rw [Prod.Lex.le_iff]
  refine .inl ?_
  simp only [ofLex_toLex]
  omega

theorem staged_pollAction {actions : List StopAction} {index : Nat} (here : index < actions.length)
    (action : StopAction) (poll : Poll) :
    Staged id (toLex (2 * (actions.length - index) + 2,
      ⌈(poll.hardDeadline - moment.monotonic) * 20⌉.toNat)) slot
      (slot.pollAction moment id actions index action poll) := by
  have advanced : ∀ slot : Slot, Staged id (toLex (2 * (actions.length - index) + 2,
      ⌈(poll.hardDeadline - moment.monotonic) * 20⌉.toNat)) slot
      (slot.nextAction moment id actions (index + 1)) :=
    fun slot => (staged_nextAction actions (index + 1)).mono (rank_next here)
  unfold Slot.pollAction
  split
  · rename_i before
    split
    · exact .quit (quit_none ‹_›)
    · split
      · exact advanced slot
      · split
        · exact (advanced slot.clearAdvance).after ⟨_, rfl⟩ rfl
        · dsimp only
          split
          · exact advanced slot
          · refine .suspend trivial ?_
            rw [SequencePoint.rank, Prod.Lex.lt_iff]
            refine .inr ⟨rfl, ?_⟩
            simp only [ofLex_toLex, readOutput_hardDeadline]
            exact looks_decrease (before.trans_le (min_le_right _ _))
  · exact advanced slot

theorem staged_stopBegin (sigint sigterm : Grace) :
    Staged id (toLex (20, 0)) slot (slot.stopBegin moment id sigint sigterm) := by
  unfold Slot.stopBegin
  split
  · exact .quit (quit_none ‹_›)
  · rename_i task _
    have few := (task.stop.getD (defaultStop sigint sigterm)).count.2
    refine (staged_nextAction _ _).mono ?_
    rw [Prod.Lex.le_iff]
    refine .inl ?_
    simp only [ofLex_toLex]
    omega

theorem staged_stopApplied {actions : List StopAction} {index : Nat} (here : index < actions.length)
    (action : StopAction) (offset : Nat) (started : Seconds) :
    Staged id (toLex (2 * (actions.length - index) + 3, 0)) slot
      (slot.stopApplied moment id actions index action offset started) := by
  have polled := fun poll => (staged_pollAction here action poll : Staged id _ slot.clearAdvance
    (slot.clearAdvance.pollAction moment id actions index action poll))
  refine ((polled _).mono ?_).after ⟨_, rfl⟩ rfl
  rw [Prod.Lex.le_iff]
  exact .inl (by simp)

theorem staged_stopApplyRaise {actions : List StopAction} {index : Nat}
    (here : index < actions.length) : Staged id (toLex (2 * (actions.length - index) + 3, 0)) slot
      (slot.stopApplyRaise moment id actions index) := by
  have next : Staged id _ _ ((slot.event moment id "task.stop_action_error").nextAction moment id
      actions (index + 1)) := staged_nextAction actions (index + 1)
  have below : toLex (2 * (actions.length - (index + 1)) + 3, 1) ≤
      toLex (2 * (actions.length - index) + 2, 0) := rank_next here
  refine (next.mono (below.trans ?_)).after ⟨_, rfl⟩ rfl
  rw [Prod.Lex.le_iff]
  exact .inl (by simp)

/-- A step of `_interrupt_sequence`: a stage, the delivery of its SIGKILL, a step of the confirmation,
or the end of a cancelled one. -/
inductive Stops (backend : Backend) (moment : Moment) (id : TaskId) (slot : Slot) :
    SequencePoint → StopAct → Slot → Prop where
  | stage {point : SequencePoint} {act : StopAct} {next : Slot}
      (staged : Staged id point.rank slot next) : Stops backend moment id slot point act next
  | killed : Stops backend moment id slot .killing .killed
      (Slot.confirmed (slot, slot.confirmLoop moment id 0))
  | killRaise : Stops backend moment id slot .killing .killRaise (slot.withSequence none)
  | confirm {confirm : Confirm} {act : ConfirmAct} {result : Slot × ConfirmResult}
      (stepped : slot.confirmStep backend moment id confirm act = some result) :
      Stops backend moment id slot (.confirming confirm) (.confirm act) (Slot.confirmed result)
  | cancelled (entered : Bool) : Stops backend moment id slot (.cancelled entered) .cancelDone
      (slot.withSequence (if entered then none else some ⟨.ended, false⟩))

theorem length_of_getElem? {α : Type} {xs : List α} {index : Nat} {x : α} (here : xs[index]? = some x) :
    index < xs.length := (List.getElem?_eq_some_iff.mp here).1

theorem stops_stopStep {point : SequencePoint} {act : StopAct}
    (stepped : slot.stopStep backend moment id point act = some next) :
    Stops backend moment id slot point act next := by
  unfold Slot.stopStep at stepped
  split at stepped
  · cases stepped
    exact .stage (staged_stopBegin _ _)
  · obtain ⟨action, here, rfl⟩ := Option.map_eq_some_iff.mp stepped
    exact .stage (staged_stopApplied (length_of_getElem? here) _ _ _)
  · obtain ⟨_, here, rfl⟩ := Option.map_eq_some_iff.mp stepped
    exact .stage (staged_stopApplyRaise (length_of_getElem? here))
  · rename_i actions index poll
    split at stepped
    · rename_i awake
      obtain ⟨action, here, rfl⟩ := Option.map_eq_some_iff.mp stepped
      refine .stage ((staged_pollAction (length_of_getElem? here) _ _).mono ?_)
      rw [SequencePoint.rank, Prod.Lex.le_iff]
      refine .inr ⟨rfl, ?_⟩
      simp only [ofLex_toLex]
      refine Int.toNat_le_toNat (Int.ceil_le_ceil ?_)
      linarith
    · cases stepped
  · split at stepped <;> cases stepped
    exact .stage (staged_settle _)
  · cases stepped
    exact .killed
  · cases stepped
    exact .killRaise
  · obtain ⟨result, confirming, rfl⟩ := Option.map_eq_some_iff.mp stepped
    exact .confirm confirming
  · cases stepped
    exact .cancelled _
  · cases stepped

end Stops

section Confirms

/-- A step of `_confirm_forced_exit` leaves the cell alone. It goes on without touching the row,
returns when the task is no longer stopping, or raises. -/
inductive Confirms (backend : Backend) (id : TaskId) (slot : Slot) : Confirm → ConfirmAct →
    Slot → ConfirmResult → Prop where
  | awaiting {confirm : Confirm} {act : ConfirmAct} {next : Slot} (after : Confirm)
      (cell : next.cell = slot.cell) (row : next.db.getTask id = slot.db.getTask id) :
      Confirms backend id slot confirm act next (.awaiting after)
  | ended {confirm : Confirm} {act : ConfirmAct} {next : Slot} (cell : next.cell = slot.cell)
      (row : next.db.getTask id = slot.db.getTask id)
      (ended : ∃ r, slot.db.getTask id = some r ∧ r.state.terminal = true) :
      Confirms backend id slot confirm act next .returned
  | confirmed {attempt : Nat} {current : TaskRecord} {next : Slot} (fields : List Field)
      (code : Int) (exited : completedCode backend slot.cell.tree = some (some code))
      (cell : next.cell = slot.cell)
      (row : Writes [.stopping] .cancelled fields (slot.db.getTask id) (next.db.getTask id))
      (ended : ∀ r, next.db.getTask id = some r → r.state ≠ .stopping) :
      Confirms backend id slot (.probing attempt current (some false)) .resume next .returned
  | raised {confirm : Confirm} {act : ConfirmAct} {next : Slot} (cell : next.cell = slot.cell)
      (row : next.db.getTask id = slot.db.getTask id)
      (why : act = .killRaise ∨ slot.db.getTask id = none ∨
        ∃ r, slot.db.getTask id = some r ∧ ¬ Displayable r.pluginSnapshot) :
      Confirms backend id slot confirm act next .raised

theorem confirms_confirmLoop {confirm : Confirm} {act : ConfirmAct} (attempt : Nat) :
    Confirms backend id slot confirm act slot (slot.confirmLoop moment id attempt) := by
  unfold Slot.confirmLoop
  split
  · rename_i missing
    exact .raised rfl rfl (.inr (.inl missing))
  · rename_i r found
    split
    · exact .ended rfl rfl ⟨r, found, ‹_›⟩
    · exact .awaiting _ rfl rfl

theorem confirms_confirmWake {confirm : Confirm} {act : ConfirmAct} (attempt : Nat) :
    Confirms backend id slot confirm act slot (slot.confirmWake id attempt) := by
  unfold Slot.confirmWake
  split
  · rename_i missing
    exact .raised rfl rfl (.inr (.inl missing))
  · rename_i r found
    split
    · exact .ended rfl rfl ⟨r, found, ‹_›⟩
    · exact .awaiting _ rfl rfl

theorem confirms_confirmResume {attempt : Nat} {current : TaskRecord} {running : Bool}
    {result : Slot × ConfirmResult}
    (isResult : slot.confirmResume backend moment id attempt current running = result) :
    Confirms backend id slot (.probing attempt current (some running)) .resume result.1 result.2 := by
  unfold Slot.confirmResume at isResult
  split at isResult
  · cases isResult
    exact .awaiting _ rfl rfl
  · cases isResult
    exact .awaiting _ rfl rfl
  · rename_i code exited
    split at isResult
    · cases isResult
      exact .awaiting _ rfl rfl
    · rename_i stopped
      obtain rfl : running = false := by simpa using stopped
      obtain ⟨raised, row, found, hidden⟩ | ⟨refused, unexpected⟩ | ⟨row, status, found, live, moved⟩ :=
        slot.db.transition_cases moment.now id [.stopping] .cancelled [.endedAt moment.now,
          .exitCode code, .logSize moment.logSize, .elapsedSeconds (elapsed moment current)] none
      · rw [raised] at isResult
        cases isResult
        exact .raised rfl rfl (.inr (.inr ⟨row, found, hidden⟩))
      · rw [refused] at isResult
        cases isResult
        have elsewhere : ∀ r, slot.db.getTask id = some r → r.state ≠ .stopping := by
          simpa using unexpected
        exact .confirmed [] code exited rfl (.same _ (fun r same stopping =>
          absurd (List.mem_singleton.mp stopping) (elsewhere r same))) elsewhere
      · rw [moved] at isResult
        cases isResult
        refine .confirmed [.endedAt moment.now, .exitCode code, .logSize moment.logSize,
          .elapsedSeconds (elapsed moment current)] code exited rfl ?_ (fun r same => ?_)
        · dsimp only
          rw [Db.getTask_move, if_pos rfl, found]
          exact .moved row status live
        · dsimp only at same
          rw [Db.getTask_move, if_pos rfl, found, Option.map_some, Option.some.injEq] at same
          subst same
          simp

theorem confirms_confirmStep {confirm : Confirm} {act : ConfirmAct} {result : Slot × ConfirmResult}
    (stepped : slot.confirmStep backend moment id confirm act = some result) :
    Confirms backend id slot confirm act result.1 result.2 := by
  unfold Slot.confirmStep at stepped
  split at stepped
  · split at stepped <;> cases stepped
    exact confirms_confirmWake _
  · cases stepped
    exact .awaiting _ rfl rfl
  · cases stepped
    exact .awaiting _ rfl rfl
  · exact confirms_confirmResume (Option.some.inj stepped)
  · cases stepped
    exact confirms_confirmLoop _
  · cases stepped
    exact .raised rfl rfl (.inl rfl)
  · cases stepped

theorem cell_confirmStep {confirm : Confirm} {act : ConfirmAct} {result : Slot × ConfirmResult}
    (stepped : slot.confirmStep backend moment id confirm act = some result) :
    result.1.cell = slot.cell := by
  obtain ⟨next, outcome⟩ := result
  have confirms : Confirms backend id slot confirm act next outcome := confirms_confirmStep stepped
  cases confirms <;> assumption

/-- `_interrupt_sequence` after a step of its confirmation. -/
theorem confirmed_cases (result : Slot × ConfirmResult) :
    (∃ confirm, result.2 = .awaiting confirm ∧
      Slot.confirmed result = result.1.suspend (.confirming confirm)) ∨
    (result.2 = .returned ∨ result.2 = .raised) ∧
      Slot.confirmed result = result.1.withSequence none := by
  obtain ⟨slot, result⟩ := result
  cases result with
  | awaiting confirm => exact .inl ⟨confirm, rfl, rfl⟩
  | returned => exact .inr ⟨.inl rfl, rfl⟩
  | raised => exact .inr ⟨.inr rfl, rfl⟩

end Confirms
section Waits

/-- A step of `_wait` changes its own coroutine and at most collects the process. -/
structure Waited (config : Config) (slot next : Slot) : Prop where
  cell : ∃ waiter tree, next.cell = { slot.cell with waiter, tree } ∧
    (tree = slot.cell.tree ∨ tree = slot.cell.tree.collect config.backend)

theorem cell_collected (code : Int) :
    ∃ waiter, (slot.collected id code).cell = { slot.cell with waiter } := by
  unfold Slot.collected
  split
  · exact ⟨_, rfl⟩
  · split <;> exact ⟨_, rfl⟩

theorem cell_waitResume (failures : Nat) (current : TaskRecord) (running : Bool) : ∃ waiter,
    (slot.waitResume backend moment id failures current running).cell = { slot.cell with waiter } := by
  unfold Slot.waitResume
  split
  · exact ⟨_, rfl⟩
  · split
    · exact ⟨_, rfl⟩
    · split
      · exact cell_collected _
      · exact ⟨_, rfl⟩

theorem cell_waitEvaluated (task : TaskRecord) (code : Int) (verdict : Verdict) :
    (slot.waitEvaluated moment id task code verdict).cell = { slot.cell with waiter := none } := by
  unfold Slot.waitEvaluated
  dsimp only
  split <;> split <;> rfl

theorem waited_waitStep {waiter : Option Waiter} {act : TaskAct}
    (stepped : slot.waitStep config moment id waiter act = some next) : Waited config slot next := by
  unfold Slot.waitStep at stepped
  split at stepped
  · cases stepped
    exact ⟨_, _, rfl, .inl rfl⟩
  · split at stepped <;> cases stepped
    obtain ⟨waiter, isCell⟩ :=
      @cell_collected id (slot.withTree (slot.cell.tree.collect config.backend)) _
    exact ⟨waiter, _, isCell, .inr rfl⟩
  · cases stepped
    unfold Slot.waitRaise
    dsimp only
    split <;> exact ⟨_, _, rfl, .inr rfl⟩
  · cases stepped
    exact ⟨_, _, rfl, .inl rfl⟩
  · cases stepped
    exact ⟨_, _, rfl, .inl rfl⟩
  · cases stepped
    obtain ⟨waiter, isCell⟩ := @cell_waitResume config.backend moment id slot _ _ _
    exact ⟨waiter, _, isCell, .inl rfl⟩
  · split at stepped <;> cases stepped
    exact ⟨_, _, rfl, .inl rfl⟩
  · cases stepped
    exact ⟨_, _, cell_waitEvaluated _ _ _, .inl rfl⟩
  · cases stepped

end Waits

section Interrupts

/-- What a request to interrupt a task finds and does. -/
inductive Interrupts (id : TaskId) (slot : Slot) : Slot → Bool → Prop where
  | missing (gone : slot.db.getTask id = none) : Interrupts id slot slot true
  | queued {next : Slot} {raised : Bool} (fields : List Field) (cell : next.cell = slot.cell)
      (row : Writes [.queued] .cancelled fields (slot.db.getTask id) (next.db.getTask id))
      (was : ∃ r, slot.db.getTask id = some r ∧ r.state = .queued)
      (hidden : raised = true → ∃ r, slot.db.getTask id = some r ∧ ¬ Displayable r.pluginSnapshot) :
      Interrupts id slot next raised
  | stopping {next : Slot} (r : TaskRecord) (stop : Option StopStrategy) (status : TaskStatus)
      (sigint sigterm : Grace) (found : slot.db.getTask id = some r)
      (live : r.state = .starting ∨ r.state = .running) (free : slot.cell.sequence = none)
      (row : next.db.getTask id =
        some ({ r with stop }.moved .stopping [.interruptStage .requested] status))
      (cell : next.cell = { slot.cell with sequence := some ⟨.created sigint sigterm, false⟩ }) :
      Interrupts id slot next false
  | hidden {next : Slot} (r : TaskRecord) (stop : Option StopStrategy)
      (found : slot.db.getTask id = some r) (live : r.state = .starting ∨ r.state = .running)
      (dark : ¬ Displayable r.pluginSnapshot) (row : next.db.getTask id = some { r with stop })
      (cell : next.cell = slot.cell) : Interrupts id slot next true
  | advanced {next : Slot} (r : TaskRecord) (found : slot.db.getTask id = some r)
      (started : r.state ≠ .queued)
      (busy : r.state = .starting ∨ r.state = .running → slot.cell.sequence.isSome)
      (row : next.db.getTask id = some r)
      (cell : next.cell = { slot.cell with
        sequence := slot.cell.sequence.map (fun sequence => { sequence with advance := true }) }) :
      Interrupts id slot next false

theorem getTask_snapshotStop {db : Db} {r : TaskRecord} (strategy : StopStrategy)
    (found : db.getTask id = some r) : ∃ stop, (if r.stop.isNone then
      db.snapshotStop id strategy else db).getTask id = some { r with stop } := by
  split
  · rename_i blank
    refine ⟨some strategy, ?_⟩
    have row : (db.snapshotStop id strategy).getTask id = if id = id then (db.getTask id).map
        (fun row => if row.stop.isNone then { row with stop := some strategy } else row)
        else db.getTask id := Tasks.get?_update _ (fun row => by split <;> rfl)
    rw [row, if_pos rfl, found, Option.map_some, if_pos blank]
  · exact ⟨r.stop, found⟩

theorem interrupts_interrupt (moment : Moment) (id : TaskId) (slot : Slot) (sigint sigterm : Grace) :
    Interrupts id slot (slot.interrupt moment id sigint sigterm).1
      (slot.interrupt moment id sigint sigterm).2 := by
  unfold Slot.interrupt
  split
  · exact .missing ‹_›
  · rename_i r found
    split
    · rename_i queued
      refine .queued [.endedAt moment.now, .interruptStage .queued] rfl
        (transition_writes slot.db moment.now id [.queued] .cancelled _ none) ⟨r, found, queued⟩ ?_
      intro raised
      obtain ⟨_, hidden⟩ | ⟨refused, _⟩ | ⟨_, _, _, _, moved⟩ := slot.db.transition_cases moment.now id
        [.queued] .cancelled [.endedAt moment.now, .interruptStage .queued] none
      · exact hidden
      · simp [refused] at raised
      · simp [moved] at raised
    · rename_i started
      split
      · rename_i ready
        obtain ⟨stop, frozen⟩ := getTask_snapshotStop (defaultStop sigint sigterm) found
        dsimp only
        generalize (if r.stop.isNone = true then slot.db.snapshotStop id (defaultStop sigint sigterm)
          else slot.db) = db at frozen
        have free : slot.cell.sequence = none := by simpa using ready.2
        obtain ⟨raised, other, found', hidden⟩ | ⟨_, unexpected⟩ | ⟨other, status, found', _, moved⟩ :=
          db.transition_cases moment.now id [.starting, .running] .stopping
            [.interruptStage .requested] none
        · rw [frozen] at found'
          cases found'
          rw [raised]
          exact .hidden r stop found ready.1 hidden frozen rfl
        · have expects := unexpected _ frozen
          obtain ⟨state | state, _⟩ := ready <;> simp [state] at expects
        · rw [frozen] at found'
          cases found'
          rw [moved]
          refine .stopping r stop status sigint sigterm found ready.1 free ?_ rfl
          simp [Slot.startInterrupt, frozen]
      · rename_i busy
        have sequence : r.state = .starting ∨ r.state = .running → slot.cell.sequence.isSome := by
          intro live
          by_contra none
          exact busy ⟨live, by simpa using none⟩
        split
        · rename_i blank
          refine .advanced r found started sequence found ?_
          rw [blank, Option.map_none, ← blank]
        · rename_i some
          exact .advanced r found started sequence found (by simp [some])

end Interrupts
section Steps

/-- The steps of one task by the coroutine that takes them. -/
inductive Steps (config : Config) (moment : Moment) (id : TaskId) (slot : Slot) :
    TaskAct → Slot → Prop where
  | tree {a : TaskAct} (tree : Tree) (moved : slot.treeStep config a = some tree) :
      Steps config moment id slot a (slot.withTree tree)
  | start {a : TaskAct} {next : Slot}
      (stepped : slot.startStep config moment id slot.cell.starter a = some next) :
      Steps config moment id slot a next
  | wait {a : TaskAct} {next : Slot}
      (stepped : slot.waitStep config moment id slot.cell.waiter a = some next) :
      Steps config moment id slot a next
  | stop {a : StopAct} {next : Slot} (sequence : Sequence)
      (isSequence : slot.cell.sequence = some sequence)
      (stepped : slot.stopStep config.backend moment id sequence.point a = some next) :
      Steps config moment id slot (.stop a) next

theorem steps_taskStep {slot next : Slot} {moment : Moment} {a : TaskAct}
    (stepped : slot.taskStep config moment id a = some next) : Steps config moment id slot a next := by
  unfold Slot.taskStep at stepped
  split at stepped
  all_goals first
    | exact .start stepped
    | exact .wait stepped
    | (obtain ⟨tree, moved, rfl⟩ := Option.map_eq_some_iff.mp stepped
       exact .tree tree moved)
    | (obtain ⟨sequence, isSequence, stopped⟩ := Option.bind_eq_some_iff.mp stepped
       exact .stop sequence isSequence stopped)

theorem Stops.cell {point : SequencePoint} {act : StopAct}
    (stops : Stops backend moment id slot point act next) :
    ∃ sequence, next.cell = { slot.cell with sequence } := by
  have confirmed : ∀ result : Slot × ConfirmResult, result.1.cell = slot.cell →
      ∃ sequence, (Slot.confirmed result).cell = { slot.cell with sequence } := by
    intro result same
    obtain ⟨confirm, _, isNext⟩ | ⟨_, isNext⟩ := confirmed_cases result
    · exact ⟨_, by rw [isNext, Slot.cell_suspend, same]⟩
    · exact ⟨_, by rw [isNext, Slot.cell_withSequence, same]⟩
  cases stops with
  | stage staged => exact staged.cell
  | killed => exact confirmed _ rfl
  | killRaise | cancelled => exact ⟨_, rfl⟩
  | confirm stepped => exact confirmed _ (cell_confirmStep stepped)

end Steps
end LocalFlow
