import LocalFlow.Recovery
import LocalFlow.Service.Sound

/-! While the controller serves, no active task is left alone: its starter, its waiter or its
interrupt sequence is there to end it, through crashes, restarts and recoveries. -/
namespace LocalFlow
open Transition
variable {config : Config} {s t : System} {act : Act} {acts : List Act} {id : TaskId}
  {slot next : Slot} {v w : View}

/-- The sequence goes on to the confirmation of the exit. -/
def SequencePoint.presses : SequencePoint → Bool
  | .cancelled _ | .ended => false
  | _ => true

/-- A sequence that goes on. -/
def Cell.pressed (cell : Cell) : Bool := cell.sequence.any (fun sequence => sequence.point.presses)

/-- Who ends an active task, by its state. -/
structure Served (view : View) : Prop where
  starting : ∀ row, view.row = some row → row.state = .starting →
    view.cell.starter.isSome = true ∨ view.cell.waiter.isSome = true
  running : ∀ row, view.row = some row → row.state = .running → view.cell.waiter.isSome = true
  stopping : ∀ row, view.row = some row → row.state = .stopping →
    view.cell.waiter.isSome = true ∨ view.cell.pressed = true

/-- The task has ended or has not been started, or it is waited for. -/
def Handed (view : View) : Prop := Done view.row ∨ view.cell.waiter.isSome = true

/-- Rows can be shown, evaluated results can be encoded, and a SIGKILL fails only for a task that is
waited for. -/
structure Unfailing (s : System) (act : Act) : Prop where
  shown : ∀ draft ∈ act.drafts, Displayable draft.pluginSnapshot
  encodes : ∀ evaluation, (act = .recover (.evaluated evaluation) ∨
    ∃ id, act = .task id (.waitEvaluated evaluation)) → evaluation.Encodable
  delivered : ∀ id, act = .task id (.stop .killRaise) ∨ act = .task id (.stop (.confirm .killRaise)) →
    (s.cells.get id).waiter.isSome = true

namespace Served

theorem of_waiter (watched : w.cell.waiter.isSome = true) : Served w :=
  ⟨fun _ _ _ => .inr watched, fun _ _ _ => watched, fun _ _ _ => .inl watched⟩

theorem of_done (done : Done w.row) : Served w := by
  have idle : ∀ row, w.row = some row → ∀ state : TaskState, state.active = true →
    row.state ≠ state := by
    intro row found state active same
    have ended := done row found
    rw [same, active] at ended
    cases ended
  exact ⟨fun row found state => absurd state (idle row found _ rfl), fun row found state =>
    absurd state (idle row found _ rfl),
    fun row found state => absurd state (idle row found _ rfl)⟩

theorem of_handed (handed : Handed w) : Served w := handed.elim of_done of_waiter

/-- The other coroutines stay, and a row that is still starting or running was so before. -/
theorem sequenced (served : Served v) (starter : w.cell.starter = v.cell.starter)
    (waiter : w.cell.waiter = v.cell.waiter)
    (row : ∀ new, w.row = some new → new.state = .starting ∨ new.state = .running →
      ∃ old, v.row = some old ∧ old.state = new.state)
    (pressed : ∀ new, w.row = some new → new.state = .stopping →
      v.cell.waiter.isSome = true ∨ w.cell.pressed = true) : Served w := by
  refine ⟨fun new found state => ?_, fun new found state => ?_, fun new found state => ?_⟩
  · obtain ⟨old, stored, same⟩ := row new found (.inl state)
    rw [starter, waiter]
    exact served.starting old stored (same.trans state)
  · obtain ⟨old, stored, same⟩ := row new found (.inr state)
    rw [waiter]
    exact served.running old stored (same.trans state)
  · rw [waiter]
    exact pressed new found state

/-- The row keeps its state, and the cell stays. -/
theorem congr (served : Served v) (row : w.row.map TaskRecord.state = v.row.map TaskRecord.state)
    (cell : w.cell = v.cell) : Served w := by
  have before : ∀ new, w.row = some new → ∃ old, v.row = some old ∧ old.state = new.state := by
    intro new found
    rw [found] at row
    obtain ⟨old, stored, same⟩ := Option.map_eq_some_iff.mp row.symm
    exact ⟨old, stored, same⟩
  refine served.sequenced (by rw [cell]) (by rw [cell]) (fun new found _ => before new found)
    (fun new found state => ?_)
  obtain ⟨old, stored, same⟩ := before new found
  rw [cell]
  exact served.stopping old stored (same.trans state)

end Served

section Steps

theorem transition_answers {db : Db} {now : String} {expected : List TaskState} {state : TaskState}
    {fields : List Field}
    {override : Option TaskStatus}
    (shown : ∀ r, db.getTask id = some r → Displayable r.pluginSnapshot) :
    (db.transition now id expected state fields override).2 ≠ .raised := by
  obtain ⟨_, row, found, hidden⟩ | ⟨same, _⟩ | ⟨_, _, _, _, same⟩ :=
    db.transition_cases now id expected state fields override
  · exact absurd (shown row found) hidden
  · simp [same]
  · simp [same]

/-- A starter ends with a waiter, or with the end of a task that was still starting. -/
theorem served_startStep (served : Served (slot.view id)) {moment : Moment} {a : TaskAct}
    (shown : ∀ r, slot.db.getTask id = some r → Displayable r.pluginSnapshot)
    (stepped : slot.startStep config moment id slot.cell.starter a = some next) :
    Served (next.view id) := by
  unfold Slot.startStep at stepped
  split at stepped
  · cases stepped
    unfold Slot.startBegin
    split
    · exact .of_done (done_none ‹_›)
    · exact ⟨fun _ _ _ => .inl rfl, served.running, served.stopping⟩
  · split at stepped <;> cases stepped
    unfold Slot.startReturn
    split
    · rename_i raised
      exact absurd (congrArg Prod.snd raised) (transition_answers shown)
    · exact .of_waiter rfl
  · split at stepped <;> cases stepped
    rename_i task _ _
    have writes := row_transition
      ((slot.withTree (slot.cell.tree.collect config.backend)).event moment id "task.start_error")
      moment id [.starting] .failed [.endedAt moment.now, .exitCode 127, .logSize moment.logSize,
        .elapsedSeconds (elapsed moment task)] none
    change Writes _ _ _ (slot.db.getTask id)
      ((slot.startRaise config.backend moment id task).db.getTask id) at writes
    generalize isRow : (slot.startRaise config.backend moment id task).db.getTask id = row at writes
    generalize isOld : slot.db.getTask id = old at writes
    have view : (slot.startRaise config.backend moment id task).view id =
        ⟨row, { slot.cell with tree := slot.cell.tree.collect config.backend, starter := none }⟩ := by
      rw [← isRow]
      rfl
    rw [view]
    cases writes with
    | same _ why =>
      subst isOld
      refine ⟨fun r found state => ?_, served.running, served.stopping⟩
      exact absurd (shown r found) (why r found (by simp [state]))
    | moved old status expects => exact .of_done (done_terminal rfl rfl)
  · cases stepped

/-- The coroutine of an interrupt is left only when the task has ended. -/
theorem served_stopStep (served : Served (slot.view id)) {moment : Moment} {sequence : Sequence}
    {a : StopAct}
    (isSequence : slot.cell.sequence = some sequence) (shown : next.db.Displays)
    (delivered : a = .killRaise ∨ a = .confirm .killRaise → slot.cell.waiter.isSome = true)
    (displays : slot.db.Displays)
    (stepped : slot.stopStep config.backend moment id sequence.point a = some next) :
    Served (next.view id) := by
  have stops := stops_stopStep stepped
  obtain ⟨_, isCell⟩ := stops.cell
  have starter : (next.view id).cell.starter = (slot.view id).cell.starter := by
    change next.cell.starter = _
    rw [isCell]
    rfl
  have waiter : (next.view id).cell.waiter = (slot.view id).cell.waiter := by
    change next.cell.waiter = _
    rw [isCell]
    rfl
  by_cases watched : slot.cell.waiter.isSome = true
  · exact .of_waiter (waiter ▸ watched)
  -- without a waiter, a task that is stopping is left to the sequence
  have rest : ∀ {point : SequencePoint}, point.presses = true →
    (∃ advance, next.cell.sequence = some ⟨point, advance⟩) →
      Halts (slot.db.getTask id) (next.db.getTask id) → Served (next.view id) := by
    rintro point presses ⟨advance, isNext⟩ halts
    refine served.sequenced starter waiter (fun new found state => ?_) (fun _ _ _ => .inr ?_)
    · change next.db.getTask id = some new at found
      generalize next.db.getTask id = row at halts found
      generalize isOld : slot.db.getTask id = old at halts
      cases halts with
      | same => exact ⟨new, isOld.trans found, rfl⟩
      | stopping row status stage live =>
        cases found
        obtain impossible | impossible := state <;> cases impossible
    · change next.cell.pressed = true
      simp [Cell.pressed, isNext, presses]
  have closed : Done (next.db.getTask id) → Served (next.view id) := fun done => .of_done done
  -- a step of the confirmation presses on, or leaves a task that has ended
  have confirmed : ∀ {confirm : Confirm} {a : ConfirmAct} {result : Slot × ConfirmResult},
      Confirms config.backend id slot confirm a result.1 result.2 → a ≠ .killRaise →
        next = Slot.confirmed result →
      Served (next.view id) := by
    rintro confirm a ⟨late, outcome⟩ confirms delivered rfl
    cases confirms with
    | awaiting after _ row =>
      refine @rest (.confirming after) rfl ⟨_, rfl⟩ ?_
      rw [show (Slot.confirmed (late, .awaiting after)).db.getTask id = slot.db.getTask id from row]
      exact .same _
    | ended _ row ended =>
      obtain ⟨r, found, terminal⟩ := ended
      exact closed (done_terminal (row.trans found) terminal)
    | confirmed _ _ _ _ row ended =>
      refine served.sequenced starter waiter (fun new found state => ?_)
        (fun new found state => absurd state (ended new found))
      change late.db.getTask id = some new at found
      generalize late.db.getTask id = after at row found
      generalize isOld : slot.db.getTask id = old at row
      cases row with
      | same => exact ⟨new, isOld.trans found, rfl⟩
      | moved old status expects =>
        cases found
        obtain impossible | impossible := state <;> cases impossible
    | raised _ row why =>
      obtain failed | missing | ⟨r, found, hidden⟩ := why
      · exact absurd failed delivered
      · exact closed (done_none (row.trans missing))
      · exact absurd (displays id r found) hidden
  obtain ⟨point, advance⟩ := sequence
  dsimp only at stops stepped
  cases stops with
  | stage staged =>
    obtain ⟨_, quit⟩ | ⟨point, advance, isNext, stage, _⟩ := staged.sequence
    · refine closed (fun r found => ?_)
      have ended := (quit r found).resolve_right (fun hidden => hidden (shown id r found))
      cases active : r.state.active with
      | false => rfl
      | true => rw [TaskState.active_not_terminal active] at ended; cases ended
    · refine rest ?_ ⟨advance, isNext⟩ staged.row
      revert stage
      cases point <;> simp [SequencePoint.Stage, SequencePoint.presses]
  | killed =>
    exact confirmed (@confirms_confirmLoop _ _ _ _ (.killing 0) .killed 0) ConfirmAct.noConfusion rfl
  | killRaise => exact absurd (delivered (.inl rfl)) watched
  | cancelled entered =>
    refine served.sequenced starter waiter (fun new found _ => ⟨new, found, rfl⟩)
      (fun new found state => ?_)
    obtain waits | presses := served.stopping new found state
    · exact .inl waits
    · have idle : slot.cell.pressed = false := by simp [Cell.pressed, isSequence, SequencePoint.presses]
      rw [show (slot.view id).cell = slot.cell from rfl, idle] at presses
      cases presses
  | @confirm confirm a result confirming =>
    refine confirmed (confirms_confirmStep confirming) (fun failed => ?_) rfl
    exact watched (delivered (.inr (by rw [failed])))

theorem served_taskStep (served : Served (slot.view id)) {moment : Moment} {a : TaskAct}
    (displays : slot.db.Displays)
    (encodes : ∀ evaluation, a = .waitEvaluated evaluation → evaluation.Encodable)
    (delivered : a = .stop .killRaise ∨ a = .stop (.confirm .killRaise) →
      slot.cell.waiter.isSome = true)
    (stepped : slot.taskStep config moment id a = some next) : Served (next.view id) := by
  have shown : next.db.Displays :=
    (update_taskStep _ stepped).updates.displays (fun _ never => never.elim) displays
  cases steps_taskStep stepped with
  | tree => exact ⟨served.starting, served.running, served.stopping⟩
  | start started => exact served_startStep served (displays id) started
  | wait waited =>
    obtain watched | done := waitStep_kept (displays id) waited encodes
    · exact .of_waiter watched
    · exact .of_done done
  | stop sequence isSequence stopped =>
    refine served_stopStep served isSequence shown (fun failed => delivered ?_) displays stopped
    obtain rfl | rfl := failed
    · exact .inl rfl
    · exact .inr rfl

theorem served_interrupt (served : Served (slot.view id)) (moment : Moment) (sigint sigterm : Grace)
    (displays : slot.db.Displays) : Served ((slot.interrupt moment id sigint sigterm).1.view id) := by
  have interrupts := interrupts_interrupt moment id slot sigint sigterm
  generalize (slot.interrupt moment id sigint sigterm).1 = next at interrupts
  generalize (slot.interrupt moment id sigint sigterm).2 = raised at interrupts
  cases interrupts with
  | missing => exact served
  | queued fields cell row =>
    have rows : ∀ new, next.db.getTask id = some new → new.state.active = true →
        ∃ old, slot.db.getTask id = some old ∧ old.state = new.state := by
      intro new found active
      generalize next.db.getTask id = after at row found
      generalize isOld : slot.db.getTask id = old at row
      cases row with
      | same => exact ⟨new, found, rfl⟩
      | moved =>
        cases found
        cases active
    refine served.sequenced (congrArg Cell.starter cell :) (congrArg Cell.waiter cell :)
      (fun new found state => rows new found (by obtain state | state := state <;> rw [state] <;> rfl))
      (fun new found state => ?_)
    obtain ⟨old, stored, same⟩ := rows new found (by rw [state]; rfl)
    rw [show (next.view id).cell = slot.cell from cell]
    exact served.stopping old stored (same.trans state)
  | stopping r stop status sigint sigterm found live free row cell =>
    refine served.sequenced (congrArg Cell.starter cell :) (congrArg Cell.waiter cell :)
      (fun new isNew state => ?_)
      (fun _ _ _ => .inr ?_)
    · cases row.symm.trans isNew
      obtain impossible | impossible := state <;> cases impossible
    · rw [show (next.view id).cell = _ from cell]
      rfl
  | hidden r _ found _ dark => exact absurd (displays id r found) dark
  | advanced r found _ _ row cell =>
    have same : ∀ new, (next.view id).row = some new → (slot.view id).row = some new :=
      fun new isNew => (show slot.db.getTask id = _ from found).trans (row.symm.trans isNew)
    refine served.sequenced (congrArg Cell.starter cell :) (congrArg Cell.waiter cell :)
      (fun new isNew _ => ⟨new, same new isNew, rfl⟩) (fun new isNew state => ?_)
    refine (served.stopping new (same new isNew) state).imp_right (fun presses => ?_)
    rw [show (next.view id).cell = _ from cell]
    change slot.cell.pressed = true at presses
    simpa [Cell.pressed, Option.any_map, Function.comp_def] using presses

end Steps

section Phases

theorem Served.kept (served : Served (s.view id)) (kept : Kept config s t id) : Served (t.view id) := by
  cases kept with
  | same row cell =>
    refine served.congr ?_ cell
    have states := congrArg (Option.map TaskRecord.state) row
    rwa [Option.map_map, Option.map_map] at states
  | ended _ gone => exact .of_done (done_none gone)

/-- A kept row is done if it was. -/
theorem Done.kept (done : Done (s.db.getTask id)) (kept : Kept config s t id) :
    Done (t.db.getTask id) := by
  intro new found
  obtain ⟨old, stored, same⟩ := kept.row found
  rw [← core_state same]
  exact done old stored

theorem Handed.kept (handed : Handed (s.view id)) (kept : Kept config s t id) : Handed (t.view id) := by
  obtain done | watched := handed
  · exact .inl (Done.kept done kept)
  cases kept with
  | same _ cell =>
    refine .inr ?_
    rw [show (t.view id).cell = _ from cell]
    exact watched
  | ended _ gone => exact .inl (done_none gone)

/-- While the controller recovers, every task that has been started is watched, or its turn has
still to come. -/
def Covers (s : System) : Prop :=
  ∀ recovery, s.phase = .recovering recovery → ∀ id row, s.db.getTask id = some row →
  row.state ≠ .queued → Covered s recovery id

/-- What holds along a run in which nothing fails: while the controller serves, every active task is
served; while it recovers, every task that has been started is covered. -/
structure Serves (s : System) : Prop where
  sound : Sound s
  displays : s.db.Displays
  serving : s.phase = .serving → ∀ id, Served (s.view id)
  recovering : Covers s

theorem served_serving (served : ∀ id, Served (s.view id)) (displays : s.db.Displays)
    (unfailing : Unfailing s act)
    (serving : s.phase = .serving) (stepped : Step config s act t) (stays : t.phase = .serving)
    (id : TaskId) :
    Served (t.view id) := by
  have enrolls : ∀ {next : System}, Enrolled s.db next.db id → next.cells = s.cells →
    Served (next.view id) := by
    intro next enrolled cells
    have cell : (next.view id).cell = (s.view id).cell := by rw [System.view, cells]; rfl
    cases enrolled with
    | same row => exact (served id).congr (congrArg _ row) cell
    | fresh row missing unused found queued =>
      refine .of_done (fun r same => ?_)
      cases found.symm.trans same
      rw [queued]
      rfl
  unfold Step step at stepped
  rw [serving] at stepped
  split at stepped
  · rename_i target a
    obtain ⟨slot, moved, rfl⟩ := Option.map_eq_some_iff.mp stepped
    by_cases here : id = target
    · subst here
      rw [view_put]
      refine served_taskStep (show Served ((s.slot id).view id) from served id) displays
        (fun evaluation same => ?_) (fun failed => ?_) moved
      · exact unfailing.encodes evaluation (.inr ⟨id, by rw [same]⟩)
      · exact unfailing.delivered id (failed.imp (fun same => by rw [same]) (fun same => by rw [same]))
    · rw [view_put_other (update_taskStep _ moved) here]
      exact served id
  · unfold System.submit at stepped
    split at stepped
    · rename_i unused
      obtain ⟨db, created, rfl⟩ := Option.map_eq_some_iff.mp stepped
      exact enrolls (enrolled_insertTask unused created) rfl
    · cases stepped
  · unfold System.submitBatch at stepped
    split at stepped
    · rename_i fresh
      obtain ⟨⟨db, outcome⟩, created, rfl⟩ := Option.map_eq_some_iff.mp stepped
      exact enrolls (enrolled_createBatch fresh.2 fresh.1 created) rfl
    · cases stepped
  · rename_i target sigint sigterm _
    cases stepped
    by_cases here : id = target
    · subst here
      rw [show (s.interrupt id sigint sigterm).view id = _ from view_put _]
      exact served_interrupt (show Served ((s.slot id).view id) from served id) _ _ _ displays
    · rw [show (s.interrupt target sigint sigterm).view id = _ from view_put_other
        (update_interrupt (s.moment target) target (s.slot target) sigint sigterm) here]
      exact served id
  · cases stepped
    exact served id
  · split at stepped <;> cases stepped
    exact served id
  · split at stepped <;> cases stepped
    obtain kept | ⟨row, new, stored, queued, found, starting, cell⟩ :=
      (ticked_tick : Ticked config s _ id)
    · exact (served id).kept kept
    · refine ⟨fun _ _ _ => .inl ?_, fun r same state => ?_, fun r same state => ?_⟩
      · rw [show (System.view _ id).cell = _ from cell]
        rfl
      all_goals
        cases found.symm.trans same
        rw [starting] at state
        cases state
  · rename_i impossible
    cases impossible
  · cases stepped
    cases stays
  · cases stepped
    cases stays
  · rename_i impossible
    cases impossible
  · rename_i impossible
    cases impossible
  · cases stepped
    cases stays
  · rename_i impossible
    cases impossible
  · cases stepped

variable {recovery : Recovery}

/-- While a controller recovers, no task leaves the queue. -/
theorem recovering_started (sound : Sound s) (phase : s.phase = .recovering recovery)
    (stepped : Step config s act t)
    {new : TaskRecord} (found : t.db.getTask id = some new) (started : new.state ≠ .queued) :
    ∃ row, s.db.getTask id = some row ∧ row.state ≠ .queued := by
  have kept_row : ∀ {middle : System}, Kept config s middle id → middle.db.getTask id = some new →
      ∃ row, s.db.getTask id = some row ∧ row.state ≠ .queued := by
    intro middle kept found
    obtain ⟨row, stored, same⟩ := kept.row found
    exact ⟨row, stored, core_state same ▸ started⟩
  cases moved_step stepped id with
  | kept kept => exact kept_row kept found
  | started serving =>
    rw [phase] at serving
    cases serving
  | enrolled row _ _ isRow queued =>
    cases isRow.symm.trans found
    exact absurd queued started
  | own a next isAct moved view =>
    have update := update_taskStep (s.slot id) moved
    have isNew : next.db.getTask id = some new := (congrArg View.row view).symm.trans found
    have stored := update.stored
    rw [isNew] at stored
    obtain ⟨row, isRow⟩ := Option.isSome_iff_exists.mp stored.symm
    refine ⟨row, isRow, sound.not_queued isRow (fun blank => ?_)⟩
    rw [taskStep_blank (show (s.slot id).cell = {} from blank)] at moved
    cases moved
  | asked _ _ isAct =>
    subst isAct
    unfold Step step at stepped
    rw [phase] at stepped
    cases stepped
  | crashed middle kept row => exact kept_row kept (row ▸ found)
  | settled _ _ _ _ _ _ _ _ writes =>
    rw [found] at writes
    generalize isRow : s.db.getTask id = old at writes
    cases writes with
    | same => exact ⟨new, rfl, started⟩
    | moved row status live =>
      refine ⟨row, rfl, fun queued => ?_⟩
      rw [queued] at live
      revert live
      decide
  | watched _ _ _ _ _ _ row => exact ⟨new, row ▸ found, started⟩
  | closed _ isAct | confirmed _ _ _ _ _ isAct =>
    obtain ⟨_, closing, _⟩ := closing_step (isAct ▸ stepped)
    rw [phase] at closing
    cases closing

/-- The walk is over: every task that has been started has ended or is watched, and so it is after
the retention. -/
theorem handed_finish {receiptFails : Bool} {cutoff : String} {faults : Option Nat}
    (passed : recovery.Over)
    (covers : ∀ id row, s.db.getTask id = some row → row.state ≠ .queued → Covered s recovery id)
    (isNext : s.recoverFinish config recovery receiptFails cutoff faults = t)
    (lives : t.phase ≠ .down) :
    t.phase = .serving ∧ ∀ id, Handed (t.view id) := by
  subst isNext
  unfold System.recoverFinish at lives ⊢
  dsimp only at lives ⊢
  split at lives
  · exact absurd rfl lives
  · rename_i stored
    rw [if_neg stored]
    split at lives
    · exact absurd rfl lives
    · rename_i cleaned
      rw [if_neg cleaned]
      refine ⟨rfl, fun id => ?_⟩
      have before : Handed (s.view id) := by
        cases stored : s.db.getTask id with
        | none => exact .inl (done_none stored)
        | some row =>
          by_cases started : row.state = .queued
          · refine .inl (fun r found => ?_)
            cases stored.symm.trans found
            rw [started]
            rfl
          · obtain ⟨r, found, ended | watched⟩ := (covers id row stored started).attended passed
            · exact .inl (done_terminal found ended)
            · exact .inr watched
      have kept : Kept config s ({ s with receipt := recovery.bootId.elim s.receipt .recorded }.upkeep
          config cutoff faults true).state id := (kept_upkeep true).source rfl
      exact before.kept (kept.congr rfl)

theorem recoverStep_finish {fails : Bool} {cutoff : String} {faults : Option Nat}
    (moved : s.recoverStep config recovery (.finish fails cutoff faults) = some t) :
    recovery.Over ∧ s.recoverFinish config recovery fails cutoff faults = t := by
  cases point : recovery.point with
  | next =>
    simp only [System.recoverStep, point] at moved
    split at moved
    · rename_i walked
      simp only [Bool.and_eq_true, List.isEmpty_iff, Option.isNone_iff_eq_none] at walked
      exact ⟨⟨point, walked.1, walked.2⟩, Option.some.inj moved⟩
    · cases moved
  | probing task completed answer => cases answer <;> simp [System.recoverStep, point] at moved
  | evaluating => simp [System.recoverStep, point] at moved

/-- A probe that raises ends the controller. -/
theorem recoverStep_raises (phase : s.phase = .recovering recovery) {a : RecoverAct}
    (lives : t.phase ≠ .down)
    (moved : s.recoverStep config recovery a = some t) :
    a ≠ .queryRaise ∧ (a = .next → s.recordWhole config = true) := by
  have crashed : t ≠ s.crash config := by
    rintro rfl
    exact lives rfl
  constructor <;> rintro rfl
  · cases point : recovery.point with
    | next | evaluating => simp [System.recoverStep, point] at moved
    | probing task completed answer =>
      cases answer with
      | none =>
        simp only [System.recoverStep, point, Option.some.injEq] at moved
        exact crashed moved.symm
      | some => simp [System.recoverStep, point] at moved
  · cases point : recovery.point with
    | probing task completed answer => cases answer <;> simp [System.recoverStep, point] at moved
    | evaluating => simp [System.recoverStep, point] at moved
    | next =>
      simp only [System.recoverStep, point, System.recoverNext] at moved
      simp only [System.recordWhole, phase]
      cases todo : recovery.todo with
      | nil => simp
      | cons task rest =>
        cases restarted : recovery.hostRestarted with
        | true => rfl
        | false =>
          simp only [todo, restarted, Bool.false_eq_true, if_false] at moved
          cases code : completedCode config.backend (s.cells.get task.id).tree with
          | none =>
            simp only [code, Option.some.injEq] at moved
            exact absurd moved.symm crashed
          | some => simp [code]

/-- A recovery that goes on keeps watch, and one that has come to its end hands every active task
over. -/
theorem serves_recovering (displays : s.db.Displays) (covers : Covers s) (encodes : ∀ evaluation,
      (act = .recover (.evaluated evaluation) ∨ ∃ id, act = .task id (.waitEvaluated evaluation)) →
        evaluation.Encodable)
    (phase : s.phase = .recovering recovery) (stepped : Step config s act t) (lives : t.phase ≠ .down) :
    (t.phase = .serving ∧ ∀ id, Handed (t.view id)) ∨
    ∃ after, t.phase = .recovering after ∧ ∀ id, Covered s recovery id → Covered t after id := by
  have survives : act.survives = true := by
    cases survives : act.survives with
    | true => rfl
    | false => exact absurd (crash_step survives stepped).1 lives
  obtain ⟨target, a, slot, rfl, moved, rfl⟩ | ⟨_, _, db, cells, phase', _⟩ | ⟨a, rfl, moved⟩ :=
    recovering_step phase survives stepped
  · have onward := onward_task displays ⟨rfl, by simp, by simp, encodes, by simp⟩ phase moved
    exact .inr ⟨recovery, phase, onward.covers⟩
  · refine .inr ⟨recovery, phase', fun id covered => ?_⟩
    unfold Covered
    rw [db, cells]
    exact covered
  · by_cases finish : ∃ fails cutoff faults, a = .finish fails cutoff faults
    · obtain ⟨fails, cutoff, faults, rfl⟩ := finish
      obtain ⟨passed, finished⟩ := recoverStep_finish moved
      exact .inl (handed_finish passed (covers recovery phase) finished lives)
    · obtain ⟨answered, readable⟩ := recoverStep_raises phase lives moved
      obtain ⟨after, onward⟩ :=
        onward_recover displays ⟨rfl, by simpa using answered, by simpa using readable,
        encodes, by simpa using finish⟩ phase moved
      exact .inr ⟨after, onward.phase, onward.covers⟩

/-- A controller that is down starts with a recovery, and one that shuts down serves no more. -/
theorem idle_phase (stepped : Step config s act t)
    (idle : s.phase = .down ∨ ∃ shutdown, s.phase = .closing shutdown)
    (lives : t.phase ≠ .down) : (s.phase = .down ∧ ∃ readable, act = .recoverBegin readable) ∨
      ∃ shutdown, t.phase = .closing shutdown := by
  have apart : s.phase ≠ .serving := by obtain phase | ⟨_, phase⟩ := idle <;> simp [phase]
  have stays : t.phase = s.phase → ∃ shutdown, t.phase = .closing shutdown := by
    intro same
    obtain phase | ⟨shutdown, phase⟩ := idle
    · exact absurd (same.trans phase) lives
    · exact ⟨shutdown, same.trans phase⟩
  unfold Step step at stepped
  split at stepped
  · obtain ⟨slot, _, rfl⟩ := Option.map_eq_some_iff.mp stepped
    exact .inr (stays rfl)
  · exact absurd ‹_› apart
  · exact absurd ‹_› apart
  · exact absurd ‹_› apart
  · cases stepped
    exact .inr (stays rfl)
  · split at stepped <;> cases stepped
    exact .inr (stays rfl)
  · exact absurd ‹_› apart
  · split at stepped <;> cases stepped
    exact .inr (stays rfl)
  · cases stepped
    exact absurd rfl lives
  · cases stepped
    exact absurd rfl lives
  · rename_i readable phase
    exact .inl ⟨phase, readable, rfl⟩
  · rename_i recovering
    rw [recovering] at idle
    obtain impossible | ⟨_, impossible⟩ := idle <;> cases impossible
  · exact absurd ‹_› apart
  · exact .inr (closing_shutdownStep stepped)
  · cases stepped

/-- A recovery begins with every started task before it, and leaves none behind. -/
theorem covers_step (sound : Sound s) (displays : s.db.Displays) (covers : Covers s)
    (encodes : ∀ evaluation,
      (act = .recover (.evaluated evaluation) ∨ ∃ id, act = .task id (.waitEvaluated evaluation)) →
        evaluation.Encodable)
    (stepped : Step config s act t) :
    Covers t ∧ (t.phase = .serving → s.phase = .serving ∨ ∀ id, Handed (t.view id)) := by
  by_cases down : t.phase = .down
  · exact ⟨fun _ recovering => (by cases down.symm.trans recovering), fun serving =>
      (by cases down.symm.trans serving)⟩
  have idle : (s.phase = .down ∨ ∃ shutdown, s.phase = .closing shutdown) →
      Covers t ∧ (t.phase = .serving → s.phase = .serving ∨ ∀ id, Handed (t.view id)) := by
    intro idle
    obtain ⟨_, readable, rfl⟩ | ⟨shutdown, closing⟩ := idle_phase stepped idle down
    · obtain ⟨_, rfl⟩ := recoverBegin_step stepped
      refine ⟨fun recovery recovering id row found started => ?_, fun serving => by cases serving⟩
      cases recovering
      exact ⟨row, found, started, fun active => .inr (awaits_begin found active _ _)⟩
    · exact ⟨fun _ recovering => (by cases closing.symm.trans recovering), fun serving =>
        (by cases closing.symm.trans serving)⟩
  cases phase : s.phase with
  | down => exact phase ▸ idle (.inl phase)
  | closing shutdown => exact phase ▸ idle (.inr ⟨shutdown, phase⟩)
  | recovering recovery =>
    obtain ⟨serving, handed⟩ | ⟨after, isAfter, covered⟩ :=
      serves_recovering displays covers encodes phase stepped down
    · exact ⟨fun _ recovering => (by cases serving.symm.trans recovering), fun _ => .inr handed⟩
    · refine ⟨fun other same id row found started =>
        ?_, fun serving => by cases isAfter.symm.trans serving⟩
      cases isAfter.symm.trans same
      obtain ⟨old, stored, before⟩ := recovering_started sound phase stepped found started
      exact covered id (covers recovery phase id old stored before)
  | serving =>
    refine ⟨fun recovery recovering => ?_, fun _ => .inl rfl⟩
    obtain stays | impossible | ⟨_, closing⟩ := phase_serving phase stepped
    · cases stays.symm.trans recovering
    · exact absurd impossible down
    · cases closing.symm.trans recovering

theorem Serves.step (serves : Serves s) (unfailing : Unfailing s act)
    (stepped : Step config s act t) : Serves t := by
  have sound := serves.sound.step stepped
  have displays := displays_step stepped unfailing.shown serves.displays
  obtain ⟨covers, begins⟩ :=
    covers_step serves.sound serves.displays serves.recovering unfailing.encodes stepped
  refine ⟨sound, displays, fun serving id => ?_, covers⟩
  obtain phase | handed := begins serving
  · exact served_serving (serves.serving phase) serves.displays unfailing phase stepped serving id
  · exact .of_handed (handed id)

theorem serves_initial (boot wall : String) (receipt : Receipt) :
    Serves (.initial boot wall receipt) := by
  refine ⟨sound_initial boot wall receipt, displays_empty, fun serving => ?_, fun _ recovering => ?_⟩
  · cases serving
  · cases recovering

/-- In every run from a fresh installation, with crashes, reboots and recoveries at any point, in
which rows can be shown, results encoded and no SIGKILL of a stop fails for a task without a waiter:
as long as the controller serves, every active task has a coroutine that goes on to its end. One
that is starting has its starter or its waiter, one that is running its waiter, and one that is
stopping its waiter or its interrupt sequence. -/
theorem active_served {boot wall : String} {receipt : Receipt}
    (run : Run (Guarded (Step config) Unfailing) (.initial boot wall receipt) acts t)
    (serving : t.phase = .serving)
    {row : TaskRecord} (found : t.db.getTask id = some row) (active : row.state.active = true) :
    (row.state = .starting ∧
      ((t.cells.get id).starter.isSome = true ∨ (t.cells.get id).waiter.isSome = true)) ∨
    (row.state = .running ∧ (t.cells.get id).waiter.isSome = true) ∨
    (row.state = .stopping ∧
      ((t.cells.get id).waiter.isSome = true ∨ (t.cells.get id).pressed = true)) := by
  have serves : Serves t :=
    run.invariant (fun serves stepped => serves.step stepped.2 stepped.1)
    (serves_initial boot wall receipt)
  have served := serves.serving serving id
  cases state : row.state with
  | starting => exact .inl ⟨rfl, served.starting row found state⟩
  | running => exact .inr (.inl ⟨rfl, served.running row found state⟩)
  | stopping => exact .inr (.inr ⟨rfl, served.stopping row found state⟩)
  | _ =>
    rw [state] at active
    cases active

/-- The launch is refused after the stop was requested: only the interrupt sequence is left. -/
def refusedLate : List Act :=
  firstStart ++ [.submit "a" (.keyed []), .tick "" none, .task "a" .startBegin,
    .interrupt "a" System.recoveryGrace.1
    System.recoveryGrace.2, .task "a" .refuse, .task "a" .startRaise]

theorem refusedLate_unfailing : ∀ act ∈ refusedLate, ∀ s, Unfailing s act := by
  intro act member s
  simp only [refusedLate, firstStart, List.mem_append, List.mem_cons, List.not_mem_nil,
    or_false] at member
  obtain (rfl | rfl) | rfl | rfl | rfl | rfl | rfl | rfl := member
  case inr.inl => exact ⟨by simp [Act.drafts, displayable_nil, TaskCreate.keyed], by simp, by simp⟩
  all_goals exact ⟨by simp [Act.drafts], by simp, by simp⟩

theorem active_served_refused :
    ∃ t row, steps (.plain .systemd) (.initial "boot" "2026" .missing) refusedLate = some t ∧
    t.db.getTask "a" = some row ∧ row.state = .stopping ∧ (t.cells.get "a").starter.isSome = false ∧
    ((t.cells.get "a").waiter.isSome = true ∨ (t.cells.get "a").pressed = true) := by
  have left : (steps (.plain .systemd) (.initial "boot" "2026" .missing) refusedLate).any
    (fun t => t.phase.isServing &&
      !(t.cells.get "a").starter.isSome &&
        (t.db.getTask "a").any (fun row => row.state = .stopping)) = true := by decide +kernel
  obtain ⟨t, ran, holds⟩ := Option.any_eq_true _ _ |>.mp left
  simp only [Bool.and_eq_true, Bool.not_eq_true', Option.any_eq_true, Phase.isServing_iff,
    decide_eq_true_eq] at holds
  obtain ⟨⟨serving, starter⟩, row, found, stopping⟩ := holds
  have served := active_served (guarded_run refusedLate_unfailing ran) serving found
    (by rw [stopping]; rfl)
  refine ⟨t, row, ran, found, stopping, starter, ?_⟩
  simpa [stopping] using served

end Phases
end LocalFlow
