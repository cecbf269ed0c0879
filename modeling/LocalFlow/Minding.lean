import LocalFlow.Attending
import LocalFlow.Shutdown
import LocalFlow.Stages

/-! A shutdown finds every active task with its starter or its waiter, and no stop of a task that can
still be interrupted. Every step keeps it so, through crashes, restarts and recoveries, as long as no
launch is refused after a stop of its task was requested. -/
namespace LocalFlow
open Transition Relation
variable {config : Config} {s t : System} {act : Act} {id : TaskId} {slot next : Slot}
  {moment : Moment} {v w : View}

section Rows
variable {row new : Option TaskRecord}

theorem mem_interruptible {state : TaskState} : state ∈ System.interruptibleStates ↔
    state = .queued ∨ state = .starting ∨ state = .running := by
  simp [System.interruptibleStates]

theorem TaskState.mayBecome_interruptible {state later : TaskState}
    (legal : state.mayBecome later = true)
    (early : later ∈ System.interruptibleStates) : state ∈ System.interruptibleStates := by
  revert legal early
  cases state <;> cases later <;> decide

/-- What can be interrupted could be so all along. -/
theorem Follows.interruptible {a b : TaskState} (follows : Follows a b)
    (early : b ∈ System.interruptibleStates) :
    a ∈ System.interruptibleStates := by
  induction follows with
  | refl => exact early
  | tail _ legal ih => exact ih (TaskState.mayBecome_interruptible legal early)

/-- A row that can be interrupted could be so before, and no stage was recorded. -/
def Lags (row new : Option TaskRecord) : Prop :=
  ∀ n, new = some n → n.state ∈ System.interruptibleStates →
  ∃ r, row = some r ∧ r.state ∈ System.interruptibleStates ∧ n.interruptStage = r.interruptStage

theorem lags_same (same : new = row) : Lags row new :=
  fun n found early => ⟨n, same ▸ found, early, rfl⟩

theorem lags_calm (calm : ∀ n, new = some n → ∃ r, row = some r ∧ Mute r n) : Lags row new := by
  intro n found early
  obtain ⟨r, isRow, mute⟩ := calm n found
  exact ⟨r, isRow, mem_interruptible.mpr (mute.unstopped (mem_interruptible.mp early)), mute.stage⟩

theorem Writes.lags {expected : List TaskState} {state : TaskState} {fields : List Field}
    (writes : Writes expected state fields row new) (later : state ∉ System.interruptibleStates) :
    Lags row new := by
  cases writes with
  | same => exact lags_same rfl
  | moved =>
    intro n found early
    cases found
    exact absurd early later

theorem terminal_not_interruptible {state : TaskState} (ended : state.terminal = true) :
    state ∉ System.interruptibleStates := by
  revert ended
  cases state <;> decide

end Rows

section Poise

/-- A task that can be interrupted has no stage recorded and no stop under way, and a launch that is
awaited has left the controller. -/
structure Poised (view : View) : Prop where
  early : ∀ r, view.row = some r → r.state ∈ System.interruptibleStates →
    r.interruptStage = none ∧ view.cell.sequence = none
  launching : ∀ task, view.cell.starter = some (.launching task) → view.cell.tree ≠ .idle

theorem Poised.move (poised : Poised v) (rows : Lags v.row w.row)
    (sequence : v.cell.sequence = none → w.cell.sequence = none)
    (launching : ∀ task, w.cell.starter = some (.launching task) → w.cell.tree ≠ .idle) : Poised w := by
  refine ⟨fun new found early => ?_, launching⟩
  obtain ⟨row, stored, before, stage⟩ := rows new found early
  obtain ⟨blank, idle⟩ := poised.early row stored before
  exact ⟨stage.trans blank, sequence idle⟩

/-- Only the row and the stop have changed, and no stop has begun. -/
theorem Poised.sequenced (poised : Poised v) {sequence : Option Sequence} (rows : Lags v.row w.row)
    (cell : w.cell = { v.cell with sequence }) (idle : v.cell.sequence = none → sequence = none) :
    Poised w := by
  refine poised.move rows (fun blank => ?_) (fun task awaited => ?_)
  · rw [cell]
    exact idle blank
  · rw [cell] at awaited ⊢
    exact poised.launching task awaited

theorem treeStep_busy {a : TaskAct} {tree : Tree} (moved : slot.treeStep config a = some tree) :
    tree ≠ .idle := by
  rintro rfl
  unfold Slot.treeStep at moved
  split at moved
  all_goals first
    | cases moved
    | (split at moved <;> cases moved)

theorem collect_busy {backend : Backend} {tree : Tree} (busy : tree ≠ .idle) :
    tree.collect backend ≠ .idle := by
  cases tree <;> cases backend <;> simp_all [Tree.collect]

theorem unlink_busy {backend : Backend} {tree : Tree} (busy : tree ≠ .idle) :
    tree.unlink backend ≠ .idle := by
  cases tree <;> cases backend <;> simp_all [Tree.unlink]

/-- A launch that is awaited has just left the controller. -/
theorem launching_startStep {starter : Option Starter} {a : TaskAct} {task : TaskRecord}
    (stepped : slot.startStep config moment id starter a = some next)
    (awaited : next.cell.starter = some (.launching task)) : next.cell.tree = .requested := by
  unfold Slot.startStep at stepped
  split at stepped
  · cases stepped
    unfold Slot.startBegin at awaited ⊢
    split at awaited
    · cases awaited
    · rfl
  · split at stepped <;> cases stepped
    unfold Slot.startReturn at awaited
    split at awaited <;> cases awaited
  · split at stepped <;> cases stepped
    cases awaited
  · cases stepped

theorem poised_taskStep {a : TaskAct} (poised : Poised (slot.view id))
    (stepped : slot.taskStep config moment id a = some next) : Poised (next.view id) := by
  have update := update_taskStep slot stepped
  cases steps_taskStep stepped with
  | tree tree moved =>
    exact poised.move (lags_same rfl) (fun idle => idle) (fun _ _ => treeStep_busy moved)
  | start started =>
    obtain ⟨_, _, _, isCell⟩ := cell_startStep started
    refine poised.move ?_ (fun idle => ?_) (fun task awaited => ?_)
    · obtain same | ⟨_, _, transits⟩ | ⟨_, _, _, _, transits⟩ := startStep_columns started
      · exact lags_same same
      · exact lags_calm (transits.calm (by simp) (.inr ⟨rfl, rfl⟩))
      · exact lags_calm (transits.calm (by simp) (.inl rfl))
    · change next.cell.sequence = none
      rw [isCell]
      exact idle
    · have requested : (next.view id).cell.tree = .requested := launching_startStep started awaited
      simp [requested]
  | wait waited =>
    obtain ⟨waiter, tree, isCell, isTree⟩ := (waited_waitStep waited).cell
    refine poised.move ?_ (fun idle => ?_) (fun task awaited => ?_)
    · obtain same | ⟨_, _, _, _, _, _, transits⟩ | ⟨task, code, _, _, _, _, _, _, _, _, transits⟩ :=
        waitStep_columns waited
      · exact lags_same same
      · exact lags_calm (transits.calm (by simp) (.inl rfl))
      · exact lags_calm (transits.calm (by simp) (.inl (resultState_terminal task code)))
    · change next.cell.sequence = none
      rw [isCell]
      exact idle
    · change next.cell.starter = _ at awaited
      change next.cell.tree ≠ _
      rw [isCell] at awaited ⊢
      have busy : slot.cell.tree ≠ .idle := poised.launching task awaited
      obtain rfl | rfl := isTree
      · exact busy
      · exact collect_busy busy
  | stop sequence isSequence stopped =>
    -- a task that can be interrupted has no stop that could take a step
    have passed : ∀ r, slot.db.getTask id = some r → r.state ∉ System.interruptibleStates := by
      intro r found early
      have idle : slot.cell.sequence = none := (poised.early r found early).2
      rw [isSequence] at idle
      cases idle
    obtain ⟨_, isCell⟩ := (stops_stopStep stopped).cell
    refine poised.sequenced (fun new found early => ?_) isCell (fun idle => ?_)
    · obtain ⟨old, stored, follows⟩ := update.updates.follows found
      exact absurd (follows.interruptible early) (passed old stored)
    · have running : slot.cell.sequence = none := idle
      rw [isSequence] at running
      cases running

/-- A request to interrupt turns to a task that can be interrupted only once. -/
theorem poised_interrupt (poised : Poised (slot.view id)) (moment : Moment) (sigint sigterm : Grace) :
    Poised ((slot.interrupt moment id sigint sigterm).1.view id) := by
  have interrupts := interrupts_interrupt moment id slot sigint sigterm
  generalize (slot.interrupt moment id sigint sigterm).1 = next at interrupts
  generalize (slot.interrupt moment id sigint sigterm).2 = raised at interrupts
  cases interrupts with
  | missing => exact poised
  | queued fields cell row => exact poised.sequenced (row.lags (by decide)) cell (fun idle => idle)
  | stopping r stop status sigint sigterm found live free row cell =>
    have stopping : ∀ new, (next.view id).row = some new → new.state = .stopping := by
      intro new isNew
      cases row.symm.trans isNew
      rfl
    refine ⟨fun new isNew early => ?_, fun task awaited => ?_⟩
    · exact absurd (stopping new isNew ▸ early) (by decide)
    · change next.cell.starter = _ at awaited
      change next.cell.tree ≠ _
      rw [cell] at awaited ⊢
      exact poised.launching task awaited
  | hidden r stop found live _ row cell =>
    refine poised.sequenced (fun new isNew early => ?_) cell (fun idle => idle)
    cases row.symm.trans isNew
    exact ⟨r, found, early, rfl⟩
  | advanced r found _ _ row cell =>
    exact poised.sequenced (lags_same (row.trans found.symm)) cell
      (fun idle => Option.map_eq_none_iff.mpr idle)

theorem poised_closes (closes : ReflTransGen (Closes id) v w) (poised : Poised v) : Poised w := by
  induction closes with
  | refl => exact poised
  | tail _ last ih =>
    cases last with
    | asked slot moment sigint sigterm => exact poised_interrupt ih moment sigint sigterm
    | cancelled view => exact ih.sequenced (lags_same rfl) rfl (fun idle => Option.map_eq_none_iff.mpr idle)
    | forced view row stops => exact ih.sequenced (stops.lags (by decide)) rfl (fun idle => idle)

theorem poised_confirmStep {confirm : Confirm} {a : ConfirmAct} {result : Slot × ConfirmResult}
    (poised : Poised (slot.view id))
    (stepped : slot.confirmStep config.backend moment id confirm a = some result) :
    Poised (result.1.view id) := by
  refine poised.sequenced ?_ (cell_confirmStep stepped) (fun idle => idle)
  obtain same | ⟨_, _, _, _, _, _, _, _, _, transits⟩ := confirmStep_columns stepped
  · exact lags_same same
  · exact lags_calm (transits.calm (by simp) (.inl rfl))

theorem lags_kept (kept : Kept config s t id) : Lags (s.db.getTask id) (t.db.getTask id) := by
  refine lags_calm (fun new found => ?_)
  obtain ⟨old, stored, same⟩ := kept.row found
  exact ⟨old, stored, .of_core same.symm⟩

theorem Poised.kept (poised : Poised (s.view id)) (kept : Kept config s t id) : Poised (t.view id) := by
  have lags := lags_kept kept
  have untouched : t.cells.get id = s.cells.get id → Poised (t.view id) :=
    fun cell => poised.sequenced lags cell (fun idle => idle)
  cases kept with
  | same _ cell => exact untouched cell
  | ended _ _ cell =>
    obtain cell | cell := cell
    · exact untouched cell
    · have isCell : (t.view id).cell = (s.cells.get id).unlink config.backend := cell
      refine poised.move lags (fun idle => ?_) (fun task awaited => ?_)
      · rw [isCell]
        exact idle
      · rw [isCell] at awaited ⊢
        exact unlink_busy (poised.launching task awaited)

/-- What a recovery is about to resume can no longer be interrupted. -/
def Resumable (s : System) : Prop := ∀ recovery, s.phase = .recovering recovery → ∀ task,
  task ∈ recovery.todo ∨ recovery.point.task = some task → task.interruptStage.isSome = true →
  ∀ r, s.db.getTask task.id = some r → r.state ∉ System.interruptibleStates

/-- Every step leaves a task poised. -/
theorem poised_step (sound : Sound s) (resumable : Resumable s) (stepped : Step config s act t)
    (poised : Poised (s.view id)) : Poised (t.view id) := by
  have slotted : Poised ((s.slot id).view id) := poised
  cases moved_step stepped id with
  | kept kept => exact poised.kept kept
  | started serving row new stored queued found starting cell =>
    obtain ⟨status, same⟩ := started_row (sound.agrees id) stepped serving stored queued found starting
    have stage : new.interruptStage = row.interruptStage :=
      (congrArg (fun r => r.interruptStage) same).trans
        (assign_frame row _ (fun r => r.interruptStage) (fun _ field member => by
          simp only [startFields, List.mem_cons, List.not_mem_nil, or_false] at member
          obtain rfl | rfl := member <;> rfl))
    refine poised.move (fun other isOther _ => ?_) (fun idle => ?_) (fun task awaited => ?_)
    · cases found.symm.trans isOther
      exact ⟨row, stored, mem_interruptible.mpr (.inl queued), stage⟩
    · change (t.cells.get id).sequence = none
      rw [cell]
      exact idle
    · change (t.cells.get id).starter = _ at awaited
      rw [cell] at awaited
      cases awaited
  | enrolled row missing unused found _ cell =>
    obtain ⟨draft, status, rfl⟩ := enrolled_row stepped missing found
    have blank : (t.view id).cell = {} := cell.trans (sound.unsubmitted unused)
    refine ⟨fun r isRow _ => ?_, fun task awaited => ?_⟩
    · cases found.symm.trans isRow
      exact ⟨rfl, by rw [blank]⟩
    · rw [blank] at awaited
      cases awaited
  | own a next _ task view => exact view ▸ poised_taskStep slotted task
  | asked sigint sigterm _ view => exact view ▸ poised_interrupt slotted (s.moment id) sigint sigterm
  | crashed middle kept row tree _ cell =>
    have isCell : (t.view id).cell = { tree } := cell
    refine poised.move ?_ (fun _ => by rw [isCell]) (fun task awaited => ?_)
    · change Lags _ (t.db.getTask id)
      rw [row]
      exact lags_kept kept
    · rw [isCell] at awaited
      cases awaited
  | settled recovery a _ _ _ state fields terminal writes cell =>
    exact poised.sequenced (writes.lags (terminal_not_interruptible terminal)) cell (fun idle => idle)
  | watched recovery task completed phase point named row cell =>
    cases stage : task.interruptStage.isSome with
    | true =>
      refine ⟨fun r found early => absurd early ?_, fun other awaited => ?_⟩
      · exact resumable recovery phase task (.inr (by rw [point]; rfl)) stage r
          (named ▸ row.symm.trans found)
      · change (t.cells.get id).starter = _ at awaited
        change (t.cells.get id).tree ≠ _
        rw [cell] at awaited ⊢
        exact poised.launching other awaited
    | false =>
      refine poised.move (lags_same row) (fun idle => ?_) (fun other awaited => ?_)
      · change (t.cells.get id).sequence = none
        rw [cell, stage]
        exact idle
      · change (t.cells.get id).starter = _ at awaited
        change (t.cells.get id).tree ≠ _
        rw [cell] at awaited ⊢
        exact poised.launching other awaited
  | closed a _ chain => exact poised_closes chain poised
  | confirmed exited todo confirm a result _ _ confirming view =>
    exact view ▸ poised_confirmStep slotted confirming

/-- A task that cannot be interrupted any more stays so. -/
theorem passed_updates {db later : Db} (updates : Updates db later)
    (passed : ∀ r, db.getTask id = some r → r.state ∉ System.interruptibleStates) :
    ∀ r, later.getTask id = some r → r.state ∉ System.interruptibleStates := by
  intro new found early
  obtain ⟨old, stored, follows⟩ := updates.follows found
  exact passed old stored (follows.interruptible early)

/-- The page a recovery reads has no task recorded at a stage that could still be interrupted. -/
theorem Poised.read (poised : Poised (s.view id)) {task : TaskRecord}
    (stored : s.db.getTask id = some task)
    (stage : task.interruptStage.isSome = true) :
    ∀ r, s.db.getTask id = some r → r.state ∉ System.interruptibleStates := by
  intro r found early
  cases stored.symm.trans found
  rw [(poised.early task stored early).1] at stage
  cases stage

theorem resumable_step (poised : ∀ id, Poised (s.view id)) (resumable : Resumable s)
    (stepped : Step config s act t) :
    Resumable t := by
  intro recovery isPhase task visited stage
  by_cases begins : ∃ readable, act = .recoverBegin readable
  · obtain ⟨readable, rfl⟩ := begins
    obtain ⟨_, rfl⟩ := recoverBegin_step stepped
    cases isPhase
    obtain member | impossible := visited
    · exact (poised task.id).read (ownedPage_active member).1 stage
    · cases impossible
  by_cases survives : act.survives = true
  swap
  · cases (crash_step (by simpa using survives) stepped).1.symm.trans isPhase
  obtain ⟨before, phase⟩ : ∃ before, s.phase = .recovering before := by
    obtain same | serving | down | began | ⟨a, rfl⟩ | ⟨a, rfl⟩ | ⟨_, _, closing⟩ := phase_step stepped
    · exact ⟨recovery, same.symm.trans isPhase⟩
    · cases serving.symm.trans isPhase
    · cases down.symm.trans isPhase
    · exact absurd began begins
    · obtain ⟨before, phase, _⟩ := recover_step stepped
      exact ⟨before, phase⟩
    · obtain ⟨_, _, closed⟩ := closing_step stepped
      obtain ⟨_, closing⟩ := closing_shutdownStep closed
      cases closing.symm.trans isPhase
    · cases closing.symm.trans isPhase
  obtain ⟨target, a, slot, rfl, moved, rfl⟩ | ⟨_, _, db, _, same, _⟩ | ⟨a, rfl, recovered⟩ :=
    recovering_step phase survives stepped
  · cases phase.symm.trans isPhase
    exact passed_updates (update_taskStep (s.slot target) moved).updates
      (resumable recovery phase task visited stage)
  · cases same.symm.trans isPhase
    rw [db]
    exact resumable recovery phase task visited stage
  · refine passed_updates (System.updates_recoverStep recovered) ?_
    obtain down | ⟨serving, _⟩ | ⟨after, isAfter, walked⟩ := recoverStep_walked recovered
    · cases down.symm.trans isPhase
    · cases serving.symm.trans isPhase
    cases isAfter.symm.trans isPhase
    obtain member | point := visited
    · obtain old | ⟨stored, _⟩ := walked.todo task member
      · exact resumable before phase task (.inl old) stage
      · exact (poised task.id).read stored stage
    · refine resumable before phase task ?_ stage
      have walks := walked.point
      generalize recovery.point = reached at walks point
      cases walks with
      | next => cases point
      | probe head rest completed _ todo =>
        cases point
        exact .inl (by rw [todo]; exact List.mem_cons_self)
      | asked same completed was =>
        cases point
        exact .inr (by rw [was]; rfl)
      | ended same code was =>
        cases point
        exact .inr (by rw [was]; rfl)

end Poise

section Posts

/-- Evaluated results can be encoded, and a launch is refused only while its task is still starting. -/
structure Minding (s : System) (act : Act) : Prop where
  encodes : ∀ evaluation, (act = .recover (.evaluated evaluation) ∨
    ∃ id, act = .task id (.waitEvaluated evaluation)) → evaluation.Encodable
  refused : ∀ id, act = .task id .startRaise → ∀ row, s.db.getTask id = some row →
    row.state.active = true →
    row.state = .starting

/-- An active task has its starter or its waiter. -/
def Manned (view : View) : Prop :=
  Done view.row ∨ view.cell.starter.isSome = true ∨ view.cell.waiter.isSome = true

theorem Manned.sequenced (manned : Manned v) {sequence : Option Sequence}
    (rows : Done v.row → Done w.row)
    (cell : w.cell = { v.cell with sequence }) : Manned w := by
  refine manned.imp rows (fun busy => ?_)
  rw [cell]
  exact busy

/-- A transition that ends tasks, or turns to active ones only, leaves a task done. -/
theorem Writes.still {expected : List TaskState} {state : TaskState} {fields : List Field}
    {row new : Option TaskRecord}
    (writes : Writes expected state fields row new)
    (ends : state.terminal = true ∨ ∀ before ∈ expected, before.active = true) (done : Done row) :
    Done new := by
  cases writes with
  | same => exact done
  | moved old status expects =>
    obtain ended | live := ends
    · exact done_terminal rfl ended
    · have idle := done old rfl
      rw [live old.state expects] at idle
      cases idle

theorem manned_startStep {starter : Option Starter} {a : TaskAct}
    (shown : ∀ r, slot.db.getTask id = some r → Displayable r.pluginSnapshot)
    (refused : a = .startRaise → ∀ r, slot.db.getTask id = some r → r.state.active = true →
      r.state = .starting)
    (stepped : slot.startStep config moment id starter a = some next) : Manned (next.view id) := by
  unfold Slot.startStep at stepped
  split at stepped
  · cases stepped
    unfold Slot.startBegin
    split
    · exact .inl (done_none ‹_›)
    · exact .inr (.inl rfl)
  · split at stepped <;> cases stepped
    unfold Slot.startReturn
    split
    · rename_i raised
      exact absurd (congrArg Prod.snd raised) (transition_answers shown)
    · exact .inr (.inr rfl)
  · rename_i task
    split at stepped <;> cases stepped
    have writes := row_transition
      ((slot.withTree (slot.cell.tree.collect config.backend)).event moment id "task.start_error")
      moment id [.starting] .failed [.endedAt moment.now, .exitCode 127, .logSize moment.logSize,
        .elapsedSeconds (elapsed moment task)] none
    change Writes _ _ _ (slot.db.getTask id)
      ((slot.startRaise config.backend moment id task).db.getTask id) at writes
    refine .inl ?_
    change Done ((slot.startRaise config.backend moment id task).db.getTask id)
    generalize (slot.startRaise config.backend moment id task).db.getTask id = row at writes
    generalize isOld : slot.db.getTask id = old at writes
    cases writes with
    | same _ why =>
      intro r found
      cases active : r.state.active with
      | false => rfl
      | true =>
        have starting := refused rfl r (isOld.trans found) active
        exact absurd (shown r (isOld.trans found)) (why r found (by simp [starting]))
    | moved => exact done_terminal rfl rfl
  · cases stepped

theorem manned_taskStep {a : TaskAct} (manned : Manned (slot.view id)) (displays : slot.db.Displays)
    (started : ∀ r, slot.db.getTask id = some r → r.state ≠ .queued)
    (encodes : ∀ evaluation, a = .waitEvaluated evaluation → evaluation.Encodable)
    (refused : a = .startRaise → ∀ r, slot.db.getTask id = some r → r.state.active = true →
      r.state = .starting)
    (stepped : slot.taskStep config moment id a = some next) : Manned (next.view id) := by
  obtain done | busy := manned
  · refine .inl (fun new found => ?_)
    obtain ⟨old, stored, follows⟩ := (update_taskStep slot stepped).updates.follows found
    have idle := done old stored
    obtain queued | live | ended := old.state.active_or
    · exact absurd queued (started old stored)
    · rw [live] at idle
      cases idle
    · rw [follows.terminal ended]
      exact idle
  · cases steps_taskStep stepped with
    | tree => exact .inr busy
    | start begun => exact manned_startStep (displays id) refused begun
    | wait waited =>
      obtain watched | done := waitStep_kept (displays id) waited encodes
      · exact .inr (.inr watched)
      · exact .inl done
    | stop sequence isSequence stopped =>
      obtain ⟨_, isCell⟩ := (stops_stopStep stopped).cell
      refine .inr ?_
      change next.cell.starter.isSome = true ∨ next.cell.waiter.isSome = true
      rw [isCell]
      exact busy

theorem manned_interrupt (manned : Manned (slot.view id)) (moment : Moment) (sigint sigterm : Grace) :
    Manned ((slot.interrupt moment id sigint sigterm).1.view id) := by
  have live_not_done : ∀ r : TaskRecord, slot.db.getTask id = some r → r.state = .starting ∨
    r.state = .running →
      ¬ Done (slot.db.getTask id) := by
    intro r found live done
    have idle := done r found
    obtain state | state := live <;> rw [state] at idle <;> cases idle
  have interrupts := interrupts_interrupt moment id slot sigint sigterm
  generalize (slot.interrupt moment id sigint sigterm).1 = next at interrupts
  generalize (slot.interrupt moment id sigint sigterm).2 = raised at interrupts
  cases interrupts with
  | missing => exact manned
  | queued fields cell row => exact manned.sequenced (row.still (.inl rfl)) cell
  | stopping r stop status _ _ found live _ _ cell =>
    exact manned.sequenced (fun done => absurd done (live_not_done r found live)) cell
  | hidden r stop found live _ _ cell =>
    exact manned.sequenced (fun done => absurd done (live_not_done r found live)) cell
  | advanced r found _ _ row cell =>
    refine manned.sequenced (fun done => ?_) cell
    have same : (next.view id).row = (slot.view id).row := row.trans found.symm
    rw [same]
    exact done

theorem manned_closes (closes : ReflTransGen (Closes id) v w) (manned : Manned v) : Manned w := by
  induction closes with
  | refl => exact manned
  | tail _ last ih =>
    cases last with
    | asked slot moment sigint sigterm => exact manned_interrupt ih moment sigint sigterm
    | cancelled view => exact ih.sequenced (fun done => done) rfl
    | forced view row stops => exact ih.sequenced (stops.still (.inr (fun _ => mem_liveStates.mp))) rfl

theorem manned_confirmStep {confirm : Confirm} {a : ConfirmAct} {result : Slot × ConfirmResult}
    (manned : Manned (slot.view id))
    (stepped : slot.confirmStep config.backend moment id confirm a = some result) :
    Manned (result.1.view id) := by
  have confirms := confirms_confirmStep stepped
  obtain ⟨next, outcome⟩ := result
  have same : next.db.getTask id = slot.db.getTask id → Done (slot.view id).row →
    Done (next.view id).row :=
    fun row done => by
      change Done (next.db.getTask id)
      rw [row]
      exact done
  cases confirms with
  | awaiting _ cell row | ended cell row | raised cell row => exact manned.sequenced (same row) cell
  | confirmed _ _ _ cell row => exact manned.sequenced (row.still (.inl rfl)) cell

/-- While the controller serves or shuts down, no step leaves an active task alone. -/
theorem manned_step (sound : Sound s) (displays : s.db.Displays) (minding : Minding s act)
    (works : s.phase = .serving ∨ ∃ shutdown, s.phase = .closing shutdown) (lives : t.phase ≠ .down)
    (stepped : Step config s act t) (manned : Manned (s.view id)) : Manned (t.view id) := by
  have slotted : Manned ((s.slot id).view id) := manned
  have working : ∀ recovery, s.phase ≠ .recovering recovery := by
    rintro recovery phase
    obtain serving | ⟨_, closing⟩ := works
    · cases serving.symm.trans phase
    · cases closing.symm.trans phase
  cases moved_step stepped id with
  | kept kept =>
    obtain done | busy := manned
    · exact .inl (Done.kept done kept)
    cases kept with
    | same _ cell =>
      refine .inr ?_
      rw [show (t.view id).cell = _ from cell]
      exact busy
    | ended _ gone => exact .inl (done_none gone)
  | started _ _ _ _ _ _ _ cell =>
    refine .inr (.inl ?_)
    rw [show (t.view id).cell = _ from cell]
    rfl
  | enrolled row _ _ found queued =>
    refine .inl (fun r isRow => ?_)
    cases found.symm.trans isRow
    rw [queued]
    rfl
  | own a next isAct task view =>
    rw [view]
    refine manned_taskStep slotted displays
      (fun r found => sound.not_queued found (fun blank => ?_)) (fun evaluation same => ?_)
      (fun same r found active => ?_) task
    · rw [taskStep_blank (show (s.slot id).cell = {} from blank)] at task
      cases task
    · exact minding.encodes evaluation (.inr ⟨id, by rw [isAct, same]⟩)
    · exact minding.refused id (by rw [isAct, same]) r found active
  | asked sigint sigterm _ view => exact view ▸ manned_interrupt slotted (s.moment id) sigint sigterm
  | crashed _ _ _ _ _ _ down => exact absurd down lives
  | settled recovery _ _ phase => exact absurd phase (working recovery)
  | watched recovery _ _ phase => exact absurd phase (working recovery)
  | closed a _ chain => exact manned_closes chain manned
  | confirmed _ _ _ _ _ _ _ confirming view => exact view ▸ manned_confirmStep slotted confirming

end Posts

section Cancelling

/-- No stop that the forced stage has cancelled goes on. -/
def Quieted (s : System) : Prop := ∀ remaining, s.phase = .closing (.cancelling remaining) →
  ∀ id ∈ remaining, (s.cells.get id).pressed = false

theorem quieted_of_other {shutdown : Shutdown} (phase : s.phase = .closing shutdown)
    (other : ∀ remaining, shutdown ≠ .cancelling remaining) : Quieted s :=
  fun remaining cancelling => absurd (Phase.closing.inj (phase.symm.trans cancelling)) (other remaining)

theorem pressed_taskStep {a : TaskAct} (still : slot.cell.pressed = false)
    (stepped : slot.taskStep config moment id a = some next) : next.cell.pressed = false := by
  cases steps_taskStep stepped with
  | tree => exact still
  | start started =>
    obtain ⟨_, _, _, isCell⟩ := cell_startStep started
    rw [isCell]
    exact still
  | wait waited =>
    obtain ⟨_, _, isCell, _⟩ := (waited_waitStep waited).cell
    rw [isCell]
    exact still
  | stop sequence isSequence stopped =>
    have idle : sequence.point.presses = false := by
      unfold Cell.pressed at still
      rwa [isSequence] at still
    generalize sequence.point = point at idle stopped
    unfold Slot.stopStep at stopped
    split at stopped
    all_goals first
      | cases idle
      | cases stopped
    rename_i entered
    cases entered <;> (cases stopped; rfl)

theorem quieted_confirmNext (exited todo : List TaskId) : Quieted (s.confirmNext exited todo) := by
  induction todo generalizing exited with
  | nil => exact quieted_of_other rfl (by simp)
  | cons head rest ih =>
    unfold System.confirmNext
    split
    · exact quieted_of_other rfl (by simp)
    · exact ih _
    · exact quieted_of_other rfl (by simp)

theorem quieted_killNext (delivered todo : List TaskId) : Quieted (s.killNext delivered todo) := by
  unfold System.killNext
  split
  · exact quieted_confirmNext _ _
  · split <;> exact quieted_of_other rfl (by simp)

theorem presses_cancel (sequence : Sequence) : sequence.cancel.point.presses = false := by
  obtain ⟨point, advance⟩ := sequence
  cases point <;> rfl

theorem quieted_awaitExits (deadline : Seconds) : Quieted (s.awaitExits deadline) := by
  unfold System.awaitExits
  split
  · split <;> exact quieted_of_other rfl (by simp)
  · unfold System.forceAll
    dsimp only
    split
    · intro remaining cancelling id member
      cases cancelling
      simp only [System.closing, get_cancelled, member, if_true, Cell.pressed]
      cases (s.cells.get id).sequence with
      | none => rfl
      | some sequence => exact presses_cancel sequence
    · exact quieted_killNext _ _

theorem quieted_shutdownStep {shutdown : Shutdown} {a : ShutdownAct}
    (stepped : s.shutdownStep config shutdown a = some t) : Quieted t := by
  unfold System.shutdownStep at stepped
  split at stepped
  · split at stepped <;> cases stepped <;> exact quieted_of_other rfl (by simp)
  · split at stepped
    · obtain ⟨⟨drained, raised⟩, _, rfl⟩ := Option.map_eq_some_iff.mp stepped
      dsimp only
      split
      · exact quieted_of_other rfl (by simp)
      · exact quieted_awaitExits _
    · cases stepped
  · split at stepped <;> cases stepped
    exact quieted_awaitExits _
  · split at stepped <;> cases stepped
    exact quieted_killNext _ _
  · cases stepped
    exact quieted_killNext _ _
  · cases stepped
    exact quieted_of_other rfl (by simp)
  · obtain ⟨⟨slot, result⟩, _, rfl⟩ := Option.map_eq_some_iff.mp stepped
    dsimp only
    split
    · exact quieted_of_other rfl (by simp)
    · exact quieted_confirmNext _ _
    · exact quieted_of_other rfl (by simp)
  · cases stepped

theorem quieted_step (quieted : Quieted s) (stepped : Step config s act t) : Quieted t := by
  intro remaining cancelling
  by_cases survives : act.survives = true
  swap
  · cases (crash_step (by simpa using survives) stepped).1.symm.trans cancelling
  by_cases closes : ∃ a, act = .closing a
  · obtain ⟨a, rfl⟩ := closes
    obtain ⟨shutdown, _, closed⟩ := closing_step stepped
    exact quieted_shutdownStep closed remaining cancelling
  have phase : s.phase = .closing (.cancelling remaining) := by
    obtain same | serving | down | ⟨readable, rfl⟩ | ⟨a, rfl⟩ | closing | ⟨_, _, awaiting⟩ :=
      phase_step stepped
    · exact same.symm.trans cancelling
    · cases serving.symm.trans cancelling
    · cases down.symm.trans cancelling
    · obtain ⟨_, rfl⟩ := recoverBegin_step stepped
      cases cancelling
    · obtain ⟨_, _, recovered⟩ := recover_step stepped
      obtain down | ⟨serving, _⟩ | ⟨_, recovering, _⟩ := recoverStep_walked recovered
      · cases down.symm.trans cancelling
      · cases serving.symm.trans cancelling
      · cases recovering.symm.trans cancelling
    · exact absurd closing closes
    · cases awaiting.symm.trans cancelling
  intro id member
  have still := quieted remaining phase id member
  obtain ⟨target, a, slot, _, moved, rfl⟩ | ⟨_, _, _, cells, _⟩ | ⟨a, isAct, _⟩ :=
    shutting_step phase survives stepped
  · simp only [System.put, Dict.get_set]
    split
    · rename_i here
      subst here
      exact pressed_taskStep (show (s.slot id).cell.pressed = false from still) moved
    · exact still
  · rw [cells]
    exact still
  · exact absurd ⟨a, isAct⟩ closes

end Cancelling

section Runs

/-- What a shutdown relies on when it begins, and as long as it goes on. -/
structure Prepared (s : System) : Prop where
  sound : Sound s
  displays : s.db.Displays
  covers : Covers s
  resumable : Resumable s
  poised : ∀ id, Poised (s.view id)
  manned : s.phase = .serving ∨ (∃ shutdown, s.phase = .closing shutdown) → ∀ id, Manned (s.view id)
  quieted : Quieted s

theorem Prepared.step (prepared : Prepared s)
    (shown : ∀ draft ∈ act.drafts, Displayable draft.pluginSnapshot)
    (minding : Minding s act) (stepped : Step config s act t) : Prepared t := by
  obtain ⟨covers, begins⟩ :=
    covers_step prepared.sound prepared.displays prepared.covers minding.encodes stepped
  refine ⟨prepared.sound.step stepped, displays_step stepped shown prepared.displays, covers,
    resumable_step prepared.poised prepared.resumable stepped,
    fun id => poised_step prepared.sound prepared.resumable stepped (prepared.poised id),
      fun works id => ?_,
    quieted_step prepared.quieted stepped⟩
  have lives : t.phase ≠ .down := by
    intro down
    obtain serving | ⟨_, closing⟩ := works
    · cases down.symm.trans serving
    · cases down.symm.trans closing
  have onward : s.phase = .serving ∨ (∃ shutdown, s.phase = .closing shutdown) →
    Manned (t.view id) := fun before =>
    manned_step prepared.sound prepared.displays minding before lives stepped
      (prepared.manned before id)
  obtain serving | ⟨shutdown, closing⟩ := works
  · obtain before | handed := begins serving
    · exact onward (.inl before)
    · exact (handed id).imp (fun done => done) .inr
  · refine onward ?_
    obtain same | serving | down | ⟨readable, rfl⟩ | ⟨a, rfl⟩ | ⟨a, rfl⟩ | ⟨before, _⟩ :=
      phase_step stepped
    · exact .inr ⟨shutdown, same.symm.trans closing⟩
    · cases serving.symm.trans closing
    · cases down.symm.trans closing
    · obtain ⟨_, rfl⟩ := recoverBegin_step stepped
      cases closing
    · obtain ⟨_, _, recovered⟩ := recover_step stepped
      obtain down | ⟨serving, _⟩ | ⟨_, recovering, _⟩ := recoverStep_walked recovered
      · cases down.symm.trans closing
      · cases serving.symm.trans closing
      · cases recovering.symm.trans closing
    · obtain ⟨before, phase, _⟩ := closing_step stepped
      exact .inr ⟨before, phase⟩
    · exact .inl before

theorem prepared_initial (boot wall : String) (receipt : Receipt) :
    Prepared (.initial boot wall receipt) := by
  refine ⟨sound_initial boot wall receipt, displays_empty, fun _ recovering =>
    ?_, fun _ recovering => ?_,
    fun id => ⟨fun _ found => ?_, fun _ awaited => ?_⟩, fun works => ?_, fun _ cancelling => ?_⟩
  · cases recovering
  · cases recovering
  · cases found
  · cases awaited
  · obtain serving | ⟨_, closing⟩ := works
    · cases serving
    · cases closing
  · cases cancelling

end Runs
end LocalFlow
