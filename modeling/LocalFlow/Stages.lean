import LocalFlow.Service.Staging
import LocalFlow.Service.Starts
import LocalFlow.Service.Sound

/-! The recorded stage of a stop never goes back, over any number of controllers, as long as no task
recorded at sigkill is found running by a recovery. -/
namespace LocalFlow
open Transition
variable {config : Config} {s t : System} {act : Act} {id : TaskId}

section Closing

theorem climbs_views {u : System} (first : ∀ id, Climbs (s.view id) (t.view id))
    (second : ∀ id, Climbs (t.view id) (u.view id)) (id : TaskId) : Climbs (s.view id) (u.view id) :=
  (first id).trans (second id)

theorem climbs_put {target : TaskId} {slot : Slot} (paced : ∀ id, Paced (s.view id))
    (update : UpdateOf target s.db slot.db) (climbs : Climbs (s.view target) (slot.view target))
    (id : TaskId) : Climbs (s.view id) ((s.put target slot).view id) := by
  by_cases here : id = target
  · subst here
    rw [view_put]
    exact climbs
  · rw [view_put_other update here]
    exact .refl (paced id)

theorem climbs_interruptAll (ids : List TaskId) (paced : ∀ id, Paced (s.view id)) (id : TaskId) :
    Climbs (s.view id) ((System.interruptAll ids s).1.view id) := by
  induction ids generalizing s with
  | nil => exact .refl (paced id)
  | cons target rest ih =>
    have first : ∀ id, Climbs (s.view id)
      ((s.put target ((s.slot target).interrupt (s.moment target) target
        System.recoveryGrace.1 System.recoveryGrace.2).1).view id) :=
      climbs_put paced (update_interrupt (s.moment target) target (s.slot target) _ _)
        (climbs_interrupt (s.moment target) target (s.slot target) _ _ (paced target))
    unfold System.interruptAll
    dsimp only
    split
    · exact first id
    · exact (first id).trans (ih (fun other => (first other).paced))

theorem climbs_drain {fuel : Nat} {result : System × Bool} (paced : ∀ id, Paced (s.view id))
    (drained : System.drain fuel s = some result) (id : TaskId) :
    Climbs (s.view id) (result.1.view id) := by
  induction fuel generalizing s with
  | zero => cases drained
  | succ fuel ih =>
    unfold System.drain at drained
    split at drained
    · cases drained
      exact .refl (paced id)
    · have first := fun ids => climbs_interruptAll ids paced
      dsimp only at drained
      split at drained
      · cases drained
        exact first _ id
      · exact (first _ id).trans (ih (fun other => (first _ other).paced) drained)

/-- A stop that is over leaves nothing to record. -/
theorem over_free (passed : s.sequenceOver id = true) {sequence : Sequence}
    (isSequence : (s.cells.get id).sequence = some sequence) : sequence.point.Free := by
  unfold System.sequenceOver at passed
  rw [isSequence] at passed
  dsimp only at passed
  split at passed
  · rename_i ended
    rw [ended]
    trivial
  · cases passed

/-- In a round of SIGKILLs the stops of the tasks to come are over. -/
def Phase.Orderly (s : System) : Phase → Prop
  | .closing (.killing _ _ todo) => ∀ id ∈ todo, s.sequenceOver id = true
  | _ => True

theorem orderly_confirmNext (exited todo : List TaskId) :
    (s.confirmNext exited todo).phase.Orderly t := by
  induction todo generalizing exited with
  | nil => trivial
  | cons head rest ih =>
    unfold System.confirmNext
    split
    · trivial
    · exact ih _
    · trivial

theorem climbs_killNext (delivered todo : List TaskId) (paced : ∀ id, Paced (s.view id))
    (passed : ∀ id ∈ todo, s.sequenceOver id = true) :
    (∀ id, Climbs (s.view id) ((s.killNext delivered todo).view id)) ∧
      (s.killNext delivered todo).phase.Orderly (s.killNext delivered todo) := by
  unfold System.killNext
  split
  · refine ⟨fun id => ?_, orderly_confirmNext _ _⟩
    rw [view_confirmNext]
    exact .refl (paced id)
  · rename_i target rest
    have writes := transition_writes s.db s.wall target liveStates .stopping
      [.interruptStage .sigkill] none
    have update := update_stage s.db s.wall target liveStates .sigkill live_may_stop
    have later : ∀ id ∈ rest, s.sequenceOver id = true := fun id member =>
      passed id (List.mem_cons_of_mem _ member)
    generalize s.db.transition s.wall target liveStates .stopping [.interruptStage .sigkill] = result
      at writes update
    have forced : ∀ id, Climbs (s.view id) (({ s with db := result.1 } : System).view id) := by
      intro id
      by_cases here : id = target
      · subst here
        have done : ∀ after, (s.cells.get id).sequence = some after → after.point.Free :=
          fun after same => over_free (passed id List.mem_cons_self) same
        refine ⟨fun new found =>
          ?_, ⟨fun new found before => ?_, fun busy new found => ?_, fun after same =>
          (done after same).paced _⟩⟩ <;>
          (have isNew : result.1.getTask id = some new := found
           rw [isNew] at writes
           generalize isRow : s.db.getTask id = row at writes
           cases writes)
        · exact ⟨new, isRow, le_rfl⟩
        · exact ⟨_, isRow, stageLevel_sigkill _⟩
        · exact (paced id).unstopped new isRow before
        · simp at before
        · exact (paced id).busy busy new isRow
        · simp
      · have same : ({ s with db := result.1 } : System).view id = s.view id := by
          simp only [System.view, update.frame id here]
        rw [same]
        exact .refl (paced id)
    split
    · exact ⟨forced, trivial⟩
    · exact ⟨forced, later⟩

theorem climbs_forceAll (paced : ∀ id, Paced (s.view id)) :
    (∀ id, Climbs (s.view id) (s.forceAll.view id)) ∧ s.forceAll.phase.Orderly s.forceAll := by
  unfold System.forceAll
  dsimp only
  split
  · refine ⟨fun id => ?_, trivial⟩
    refine climbs_calm (paced id) (calm_same rfl) (fun after same => ?_)
    simp only [System.view, System.closing, get_cancelled] at same
    split at same
    · obtain ⟨before, isBefore, rfl⟩ := Option.map_eq_some_iff.mp same
      refine ⟨before, isBefore, ?_⟩
      unfold Sequence.cancel
      split <;> first | exact .inr trivial | exact .inl rfl
    · exact ⟨after, same, .inl rfl⟩
  · rename_i none
    refine climbs_killNext _ _ paced (fun id member => ?_)
    cases isSequence : (s.cells.get id).sequence with
    | none =>
      unfold System.sequenceOver
      rw [isSequence]
    | some sequence =>
      refine absurd (List.any_eq_true.mpr ⟨id, member, ?_⟩) none
      rw [isSequence]
      rfl

theorem climbs_awaitExits (paced : ∀ id, Paced (s.view id)) (deadline : Seconds) :
    (∀ id, Climbs (s.view id) ((s.awaitExits deadline).view id)) ∧
      (s.awaitExits deadline).phase.Orderly (s.awaitExits deadline) := by
  unfold System.awaitExits
  split
  · split <;> exact ⟨fun id => .refl (paced id), trivial⟩
  · exact climbs_forceAll paced

theorem climbs_shutdownStep {shutdown : Shutdown} {a : ShutdownAct} (paced : ∀ id, Paced (s.view id))
    (orderly : (Phase.closing shutdown).Orderly s)
    (stepped : s.shutdownStep config shutdown a = some t) :
    (∀ id, Climbs (s.view id) (t.view id)) ∧ t.phase.Orderly t := by
  unfold System.shutdownStep at stepped
  split at stepped
  · split at stepped <;> cases stepped <;> exact ⟨fun id => .refl (paced id), trivial⟩
  · split at stepped
    · obtain ⟨⟨drained, raised⟩, draining, rfl⟩ := Option.map_eq_some_iff.mp stepped
      have first : ∀ id, Climbs (s.view id) (drained.view id) := climbs_drain paced draining
      dsimp only
      split
      · exact ⟨first, trivial⟩
      · obtain ⟨second, after⟩ := climbs_awaitExits (fun id => (first id).paced)
          (drained.monotonic + _)
        exact ⟨climbs_views first second, after⟩
    · cases stepped
  · split at stepped <;> cases stepped
    exact climbs_awaitExits paced _
  · split at stepped <;> cases stepped
    rename_i passed
    exact climbs_killNext _ _ paced (List.all_eq_true.mp passed)
  · cases stepped
    exact climbs_killNext _ _ paced orderly
  · cases stepped
    exact ⟨fun id => .refl (paced id), trivial⟩
  · rename_i exited target todo confirm a
    obtain ⟨⟨slot, result⟩, confirming, rfl⟩ := Option.map_eq_some_iff.mp stepped
    have update := update_confirmStep (s.slot target) confirming
    have cell : slot.cell = s.cells.get target := cell_confirmStep confirming
    have calm : Climbs (s.view target) (slot.view target) := by
      refine climbs_calm (paced target) ?_ (fun after same => ?_)
      · obtain same | ⟨_, _, _, _, _, _, _, _, _, transits⟩ := confirmStep_columns confirming
        · exact calm_same same
        · exact transits.calm (by simp) (.inl rfl)
      · change slot.cell.sequence = some after at same
        rw [cell] at same
        exact ⟨after, same, .inl rfl⟩
    have moved := climbs_put paced update calm
    dsimp only
    split
    · exact ⟨moved, trivial⟩
    · refine ⟨fun id => ?_, orderly_confirmNext _ _⟩
      rw [view_confirmNext]
      exact moved id
    · exact ⟨moved, trivial⟩
  · cases stepped

end Closing

section Steps

/-- A recovery finds no task running that is recorded at sigkill. -/
def Graceful (s : System) (act : Act) : Prop :=
  act = .recover .resume → ∀ recovery task completed, s.phase = .recovering recovery →
    recovery.point = .probing task completed (some true) → ∀ row, s.db.getTask task.id = some row →
      row.interruptStage ≠ some .sigkill

/-- Every stop keeps pace with its recorded stage. -/
structure InStep (s : System) : Prop where
  sound : Sound s
  paced : ∀ id, Paced (s.view id)
  phase : s.phase.Orderly s

theorem paced_missing {view : View} (missing : view.row = none) : Paced view where
  unstopped r found := by
    rw [missing] at found
    cases found
  busy _ r found := by
    rw [missing] at found
    cases found
  point sequence _ := by
    rw [missing]
    unfold SequencePoint.Paced
    split <;> first | trivial | (intro _ found; cases found)

theorem inStep_initial (boot wall : String) (receipt : Receipt) :
    InStep (.initial boot wall receipt) where
  sound := sound_initial boot wall receipt
  paced _ := paced_missing rfl
  phase := trivial

theorem paced_blank {view : View} (blank : view.cell.sequence = none)
    (unstopped : ∀ r, view.row = some r → r.state = .queued ∨ r.state = .starting ∨ r.state = .running →
      r.interruptStage = none) : Paced view where
  unstopped := unstopped
  busy busy := by
    rw [blank] at busy
    cases busy
  point sequence same := by
    rw [blank] at same
    cases same

/-- A task is where it was in its stop or later, or it is gone or new. -/
def Rises (s t : System) (id : TaskId) : Prop :=
  Climbs (s.view id) (t.view id) ∨ Paced (t.view id) ∧ (t.db.getTask id = none ∨ s.db.written id = [])

theorem Rises.paced (rises : Rises s t id) : Paced (t.view id) := rises.elim Climbs.paced And.left

theorem InStep.kept (inStep : InStep s) (kept : Kept config s t id) : Rises s t id := by
  cases kept with
  | same row cell =>
    refine .inl (climbs_calm (inStep.paced id) (fun new found => ?_) (fun after same => ?_))
    · have isNew : t.db.getTask id = some new := found
      rw [isNew, Option.map_some] at row
      obtain ⟨old, isOld, same⟩ := Option.map_eq_some_iff.mp row.symm
      exact ⟨old, isOld, .of_core same.symm⟩
    · have isSequence : (t.cells.get id).sequence = some after := same
      rw [cell] at isSequence
      exact ⟨after, isSequence, .inl rfl⟩
  | ended _ gone => exact .inr ⟨paced_missing gone, .inl gone⟩

theorem InStep.started (inStep : InStep s) (stepped : Step config s act t)
    (serving : s.phase = .serving) {row new : TaskRecord} (stored : s.db.getTask id = some row)
    (queued : row.state = .queued) (found : t.db.getTask id = some new)
    (starting : new.state = .starting)
    (cell : t.cells.get id = { s.cells.get id with starter := some .created }) : Rises s t id := by
  obtain ⟨status, same⟩ :=
    started_row (inStep.sound.agrees id) stepped serving stored queued found starting
  have stage : new.interruptStage = row.interruptStage :=
    (congrArg (fun r => r.interruptStage) same).trans
      (assign_frame row _ (fun r => r.interruptStage) (fun _ field member => by
        simp only [startFields, List.mem_cons, List.not_mem_nil, or_false] at member
        obtain rfl | rfl := member <;> rfl))
  refine .inl (climbs_calm (inStep.paced id) (fun other isOther => ?_) (fun after same => ?_))
  · have isNew : t.db.getTask id = some other := isOther
    rw [found] at isNew
    cases isNew
    refine ⟨row, stored, stage, fun _ => .inl queued, fun again => ?_⟩
    rw [starting] at again
    cases again
  · have isSequence : (t.cells.get id).sequence = some after := same
    rw [cell] at isSequence
    exact ⟨after, isSequence, .inl rfl⟩

theorem InStep.enrolled (inStep : InStep s) (stepped : Step config s act t) {row : TaskRecord}
    (missing : s.db.getTask id = none) (unused : s.db.written id = [])
    (found : t.db.getTask id = some row) (cell : t.cells.get id = s.cells.get id) : Rises s t id := by
  obtain ⟨draft, status, rfl⟩ := enrolled_row stepped missing found
  refine .inr ⟨paced_blank ?_ (fun new isNew _ => ?_), .inr unused⟩
  · change (t.cells.get id).sequence = none
    rw [cell, inStep.sound.unsubmitted unused]
  · have isRow : t.db.getTask id = some new := isNew
    rw [found] at isRow
    cases isRow
    rfl

/-- A controller that dies forgets the stops; the recorded stages stay. -/
theorem InStep.crashed (inStep : InStep s) {middle : System} {tree : Tree}
    (kept : Kept config s middle id)
    (row : t.db.getTask id = middle.db.getTask id) (cell : t.cells.get id = { tree }) :
    Rises s t id := by
  have forgotten : ∀ {v : View}, v.row = (t.view id).row → Paced v → Paced (t.view id) := by
    intro v same paced
    refine paced_blank (by change (t.cells.get id).sequence = none; rw [cell])
      (fun r found before => ?_)
    exact paced.unstopped r (same.trans found) before
  obtain climbs | ⟨paced, gone | unused⟩ := inStep.kept kept
  · refine .inl ⟨fun new found => climbs.level new ?_, forgotten row.symm climbs.paced⟩
    have isNew : t.db.getTask id = some new := found
    rw [row] at isNew
    exact isNew
  · exact .inr ⟨forgotten row.symm paced, .inl (row.trans gone)⟩
  · exact .inr ⟨forgotten row.symm paced, .inr unused⟩

theorem InStep.settled (inStep : InStep s) {recovery : Recovery} {a : RecoverAct}
    (recovered : s.recoverStep config recovery a = some t) (ends : recovery.Ends a id)
    (cell : t.cells.get id = s.cells.get id) : Rises s t id := by
  have unfinished : ∀ fails cutoff faults, a ≠ .finish fails cutoff faults := by
    rintro fails cutoff faults rfl
    unfold Recovery.Ends at ends
    split at ends
    · rename_i impossible
      cases impossible
    · rename_i impossible
      cases impossible
    · rename_i impossible
      cases impossible
    · exact ends
  refine .inl (climbs_calm (inStep.paced id) ?_ (fun after same => ?_))
  · obtain same | ⟨state, fields, override, settles, transits⟩ :=
      recoverStep_columns recovered unfinished id
    · exact calm_same same
    · cases settles with
      | restarted => exact transits.calm (by simp) (.inl rfl)
      | killed => exact transits.calm (by simp) (.inl rfl)
      | lost => exact transits.calm (by simp) (.inl rfl)
      | evaluated task code => exact transits.calm (by simp) (.inl (resultState_terminal task code))
  · have isSequence : (t.cells.get id).sequence = some after := same
    rw [cell] at isSequence
    exact ⟨after, isSequence, .inl rfl⟩

/-- A recovery that finds a task running goes on with its stop from the recorded stage. -/
theorem InStep.watched (inStep : InStep s) {recovery : Recovery} {task : TaskRecord}
    {completed : Option Int} {sequence : Option Sequence} {waiter : Option Waiter}
    (phase : s.phase = .recovering recovery)
    (point : recovery.point = .probing task completed (some true))
    (named : task.id = id)
    (graceful : ∀ row, s.db.getTask id = some row → row.interruptStage ≠ some .sigkill)
    (row : t.db.getTask id = s.db.getTask id)
    (cell : t.cells.get id = { s.cells.get id with waiter, sequence })
    (isSequence : sequence = some ⟨.created System.recoveryGrace.1 System.recoveryGrace.2, false⟩ ∨
      sequence = (s.cells.get id).sequence) : Rises s t id := by
  obtain rfl | rfl := isSequence
  · refine .inl ⟨fun new found => ⟨new, row.symm.trans found, le_rfl⟩, ?_⟩
    refine ⟨fun r found => (inStep.paced id).unstopped r (row.symm.trans found), fun _ r found => ?_,
      fun after same => ?_⟩
    · have visits := inStep.sound.visits
      rw [phase] at visits
      have started : s.db.Started id := named ▸ visits task (.inr (by rw [point]; rfl))
      exact started.row (inStep.sound.agrees id) (row.symm.trans found)
    · have isAfter : (t.cells.get id).sequence = some after := same
      rw [cell] at isAfter
      cases isAfter
      exact fun r found => graceful r (row.symm.trans found)
  · refine .inl (climbs_calm (inStep.paced id) (calm_same row) (fun after same => ?_))
    have isAfter : (t.cells.get id).sequence = some after := same
    rw [cell] at isAfter
    exact ⟨after, isAfter, .inl rfl⟩

theorem InStep.rises (inStep : InStep s) (graceful : Graceful s act) (stepped : Step config s act t)
    (id : TaskId) : Rises s t id := by
  cases moved_step stepped id with
  | kept kept => exact inStep.kept kept
  | started serving row new stored queued found starting cell =>
    exact inStep.started stepped serving stored queued found starting cell
  | enrolled row missing unused found _ cell => exact inStep.enrolled stepped missing unused found cell
  | own a next _ task view =>
    have paced : Paced ((s.slot id).view id) := inStep.paced id
    have climbs : Climbs (s.view id) (next.view id) := climbs_taskStep paced task
    exact .inl (view ▸ climbs)
  | asked sigint sigterm _ view =>
    have climbs := climbs_interrupt (s.moment id) id (s.slot id) sigint sigterm (inStep.paced id)
    exact .inl (view ▸ climbs)
  | crashed middle kept row tree _ cell => exact inStep.crashed kept row cell
  | settled recovery a isAct phase ends state fields _ _ cell =>
    rw [isAct] at stepped
    obtain ⟨other, isOther, recovered⟩ := recover_step stepped
    rw [phase] at isOther
    cases isOther
    exact inStep.settled recovered ends cell
  | watched recovery task completed phase point named row cell =>
    by_cases resume : act = .recover .resume
    · refine inStep.watched phase point named (fun row found => ?_) row cell (by split <;> simp)
      exact graceful resume recovery task completed phase point row (named ▸ found)
    · by_cases survives : act.survives = true
      · obtain ⟨target, a, slot, _, moved, rfl⟩ | ⟨_, _, db, cells, _⟩ | ⟨a, isAct, recovered⟩ :=
          recovering_step phase survives stepped
        · have paced : Paced ((s.slot target).view target) := inStep.paced target
          exact .inl (climbs_put inStep.paced (update_taskStep (s.slot target) moved)
            (climbs_taskStep paced moved) id)
        · have same : t.view id = s.view id := by simp only [System.view, db, cells]
          rw [Rises, same]
          exact .inl (.refl (inStep.paced id))
        · refine absurd recovered ?_
          unfold System.recoverStep
          rw [point]
          cases a <;> simp_all
      · obtain ⟨_, _, forgotten⟩ := crash_step (by simpa using survives) stepped
        obtain ⟨tree, isCell, _⟩ := forgotten id
        have waiters := congrArg Cell.waiter (cell.symm.trans isCell)
        cases waiters
  | closed a isAct chain =>
    rw [isAct] at stepped
    obtain ⟨shutdown, phase, closed⟩ := closing_step stepped
    have orderly := inStep.phase
    rw [phase] at orderly
    exact .inl ((climbs_shutdownStep inStep.paced orderly closed).1 id)
  | confirmed exited todo confirm a result isAct phase confirming view =>
    rw [isAct] at stepped
    obtain ⟨shutdown, isPhase, closed⟩ := closing_step stepped
    have orderly := inStep.phase
    rw [isPhase] at orderly
    exact .inl ((climbs_shutdownStep inStep.paced orderly closed).1 id)

theorem sequenceOver_congr (same : (t.cells.get id).sequence = (s.cells.get id).sequence) :
    t.sequenceOver id = s.sequenceOver id := by
  unfold System.sequenceOver
  rw [same]

/-- A stop that is over is not resumed by a step of its task. -/
theorem over_taskStep {a : TaskAct} {next : Slot} (passed : s.sequenceOver id = true)
    (stepped : (s.slot id).taskStep config (s.moment id) id a = some next) :
    next.cell.sequence = (s.cells.get id).sequence := by
  cases steps_taskStep stepped with
  | tree tree => rfl
  | start started =>
    obtain ⟨_, _, _, isCell⟩ := cell_startStep started
    rw [isCell]
    rfl
  | wait waited =>
    obtain ⟨_, _, isCell, _⟩ := (waited_waitStep waited).cell
    rw [isCell]
    rfl
  | stop sequence isSequence stopped =>
    have ended : sequence.point = .ended := by
      unfold System.sequenceOver at passed
      have same : (s.cells.get id).sequence = some sequence := isSequence
      rw [same] at passed
      dsimp only at passed
      split at passed
      · assumption
      · cases passed
    rw [ended] at stopped
    cases stopped

theorem InStep.passed (closing : ∃ shutdown, s.phase = .closing shutdown)
    (other : ∀ a, act ≠ .closing a) (stepped : Step config s act t)
    (passed : s.sequenceOver id = true) :
    t.sequenceOver id = true := by
  obtain ⟨shutdown, phase⟩ := closing
  have same : (t.cells.get id).sequence = (s.cells.get id).sequence → t.sequenceOver id = true :=
    fun same => (sequenceOver_congr same).trans passed
  have keeps : ∀ {middle : System}, Kept config s middle id →
      (middle.cells.get id).sequence = (s.cells.get id).sequence := by
    intro middle kept
    cases kept with
    | same _ cell => rw [cell]
    | ended _ _ cell =>
      obtain cell | cell := cell <;> rw [cell]
      rfl
  cases moved_step stepped id with
  | kept kept => exact same (keeps kept)
  | started serving =>
    rw [phase] at serving
    cases serving
  | enrolled _ _ _ _ _ cell => exact same (by rw [cell])
  | own a next _ task view =>
    have cell : t.cells.get id = next.cell := congrArg View.cell view
    exact same (by rw [cell]; exact over_taskStep passed task)
  | asked sigint sigterm isAct =>
    rw [isAct] at stepped
    unfold Step step at stepped
    rw [phase] at stepped
    cases stepped
  | crashed _ _ _ tree _ cell =>
    unfold System.sequenceOver
    rw [cell]
  | settled recovery a isAct isPhase =>
    rw [phase] at isPhase
    cases isPhase
  | watched recovery task completed isPhase =>
    rw [phase] at isPhase
    cases isPhase
  | closed a isAct => exact absurd isAct (other a)
  | confirmed _ _ _ a _ isAct => exact absurd isAct (other _)

theorem InStep.step (inStep : InStep s) (graceful : Graceful s act) (stepped : Step config s act t) :
    InStep t := by
  refine ⟨inStep.sound.step stepped, fun id => (inStep.rises graceful stepped id).paced, ?_⟩
  by_cases closes : ∃ a, act = .closing a
  · obtain ⟨a, rfl⟩ := closes
    obtain ⟨shutdown, phase, closed⟩ := closing_step stepped
    have orderly := inStep.phase
    rw [phase] at orderly
    exact (climbs_shutdownStep inStep.paced orderly closed).2
  obtain same | serving | down | ⟨readable, rfl⟩ | ⟨a, rfl⟩ | closing | ⟨_, timeout, closing⟩ :=
    phase_step stepped
  · have orderly := inStep.phase
    rw [same]
    unfold Phase.Orderly at orderly ⊢
    split at orderly
    · rename_i phase
      exact fun id member => InStep.passed ⟨_, phase⟩ (fun a isAct => closes ⟨a, isAct⟩) stepped
        (orderly id member)
    · trivial
  · rw [serving]
    trivial
  · rw [down]
    trivial
  · obtain ⟨_, rfl⟩ := recoverBegin_step stepped
    trivial
  · obtain ⟨recovery, _, recovered⟩ := recover_step stepped
    obtain down | ⟨serving, _⟩ | ⟨after, isAfter, _⟩ := recoverStep_walked recovered
    · rw [down]
      trivial
    · rw [serving]
      trivial
    · rw [isAfter]
      trivial
  · exact absurd closing closes
  · rw [closing]
    trivial

end Steps

section Runs
variable {acts more : List Act} {boot wall : String} {receipt : Receipt}

theorem inStep_run (run : Run (Guarded (Step config) Graceful) (.initial boot wall receipt) acts s) :
    InStep s :=
  run.invariant (fun inStep stepped => inStep.step stepped.2 stepped.1)
    (inStep_initial boot wall receipt)

/-- Between two points of a run the recorded stage of a task does not go back. -/
theorem stage_climbs (inStep : InStep s) (run : Run (Guarded (Step config) Graceful) s more t)
    {row new : TaskRecord} (was : s.db.getTask id = some row) (is : t.db.getTask id = some new) :
    stageLevel row.interruptStage ≤ stageLevel new.interruptStage := by
  have submitted : s.db.written id ≠ [] := fun none => by
    have last := (inStep.sound.agrees id).current row was
    simp [none] at last
  have invariant : InStep t ∧ t.db.written id ≠ [] ∧ ∀ new, t.db.getTask id = some new →
      stageLevel row.interruptStage ≤ stageLevel new.interruptStage := by
    refine run.invariant (P := fun u => InStep u ∧ u.db.written id ≠ [] ∧
      ∀ new, u.db.getTask id = some new →
      stageLevel row.interruptStage ≤ stageLevel new.interruptStage) ?_
        ⟨inStep, submitted, fun new found => ?_⟩
    · rintro u act v ⟨inStep, written, climbed⟩ ⟨stepped, graceful⟩
      have changes : Changes (fun _ => True) u.db v.db := changes_step stepped (fun _ _ => trivial)
      refine ⟨inStep.step graceful stepped, fun none => written ?_, fun new found => ?_⟩
      · have grows := changes.written_grows id
        rw [none] at grows
        exact List.prefix_nil.mp grows
      · obtain climbs | ⟨_, gone | unused⟩ := inStep.rises graceful stepped id
        · obtain ⟨middle, isMiddle, later⟩ := climbs.level new found
          exact (climbed middle isMiddle).trans later
        · rw [gone] at found
          cases found
        · exact absurd unused written
    · rw [was] at found
      cases found
      exact le_rfl
  exact invariant.2.2 new is

/-- The action a stop begins with is the one named by the text of its recorded stage. -/
theorem begins_at_stage {sigint sigterm : Grace} {before after : Sequence} {actions : List StopAction}
    {index offset : Nat} {started : Seconds} {u : System} {row : TaskRecord}
    (found : t.db.getTask id = some row) (isBefore : (t.cells.get id).sequence = some before)
    (created : before.point = .created sigint sigterm)
    (stepped : Step config t (.task id (.stop .begin)) u)
    (isAfter : (u.cells.get id).sequence = some after)
    (applies : after.point = .applying actions index offset started) :
    index = row.interruptStage.elim 0 (fun stage => actionIndexOf stage.value) := by
  have named : interruptedActionIndex row.interruptStage =
      row.interruptStage.elim 0 (fun stage => actionIndexOf stage.value) := by
    cases row.interruptStage with
    | none => rfl
    | some stage => exact (actionIndexOf_value stage).symm
  rw [← named]
  unfold Step step at stepped
  obtain ⟨slot, moved, rfl⟩ := Option.map_eq_some_iff.mp stepped
  obtain ⟨sequence, isSequence, stopped⟩ := Option.bind_eq_some_iff.mp moved
  have same : sequence = before := Option.some.inj (isSequence.symm.trans isBefore)
  rw [same, created] at stopped
  cases stopped
  simp only [System.put, Dict.get_set, if_true] at isAfter
  exact stopBegin_applies found isAfter applies

/-- In any run of stops, shutdowns, crashes and recoveries that finds no task running at sigkill:
the recorded stage of a task does not go back, the action a stop is at is not before any stage
recorded earlier, nor after sigkill, and a stop that begins does so at the recorded stage. -/
theorem stage_monotone (run : Run (Guarded (Step config) Graceful) (.initial boot wall receipt) acts s)
    (later : Run (Guarded (Step config) Graceful) s more t) {row new : TaskRecord}
    (was : s.db.getTask id = some row) (is : t.db.getTask id = some new) :
    stageLevel row.interruptStage ≤ stageLevel new.interruptStage ∧
    (∀ sequence actions index offset started, (t.cells.get id).sequence = some sequence →
      sequence.point = .applying actions index offset started →
      (∀ kind, stageLevel row.interruptStage ≤ stageLevel (some (.stop index kind))) ∧
        row.interruptStage ≠ some .sigkill) ∧
    ∀ sigint sigterm before after actions index offset started u,
      (t.cells.get id).sequence = some before → before.point = .created sigint sigterm →
      Step config t (.task id (.stop .begin)) u → (u.cells.get id).sequence = some after →
      after.point = .applying actions index offset started →
      index = new.interruptStage.elim 0 (fun stage => actionIndexOf stage.value) := by
  have inStep := inStep_run run
  have climbs := stage_climbs inStep later was is
  have paced : Paced (t.view id) :=
    (later.invariant (fun inStep stepped => inStep.step stepped.2 stepped.1) inStep).paced id
  refine ⟨climbs, ?_, ?_⟩
  · intro sequence actions index offset started isSequence applies
    have here := paced.point sequence isSequence
    rw [applies] at here
    obtain ⟨kind, stage⟩ := here new is
    rw [stage] at climbs
    refine ⟨fun other => climbs.trans (stageLevel_stop _ _ le_rfl), fun killed => ?_⟩
    rw [killed] at climbs
    have bounded : (⊤ : WithTop ℕ) ≤ (index + 1 : ℕ) := WithBot.coe_le_coe.mp climbs
    exact absurd (top_le_iff.mp bounded) (WithTop.coe_ne_top)
  · intro sigint sigterm before after actions index offset started u isBefore created stepped
      isAfter applies
    exact begins_at_stage is isBefore created stepped isAfter applies

/-- Whether a step is graceful. -/
def System.graceful (s : System) : Act → Bool
  | .recover .resume => match s.phase with
    | .recovering recovery => match recovery.point with
      | .probing task _ (some true) =>
        (s.db.getTask task.id).all (fun row => row.interruptStage ≠ some .sigkill)
      | _ => true
    | _ => true
  | _ => true

theorem graceful_sound (s : System) (act : Act) (passed : s.graceful act = true) : Graceful s act := by
  rintro rfl recovery task completed phase point row found
  unfold System.graceful at passed
  simp only [phase, point, found, Option.all_some] at passed
  exact of_decide_eq_true passed

/-- A unit is asked to stop, and the controller dies while the first action is applied. -/
def stopCut : List Act :=
  firstStart ++ [.submit "a" (.keyed []), .tick "" none, .task "a" .startBegin, .task "a" .accept,
    .task "a" (.startReturn 1), .interrupt "a" ⟨2, two_seconds_range⟩ ⟨2, two_seconds_range⟩,
    .task "a" (.stop .begin), .task "a" (.stop .applyRaise), .crash]

/-- The next controller goes on with the stop. -/
def stopResumed : List Act :=
  [.recoverBegin true, .recover .next, .recover .query, .recover .resume,
    .recover (.finish false "" none),
    .task "a" (.stop .begin)]

theorem stage_monotone_resumed : ∃ s t row new,
    Run (Guarded (Step (.plain .systemd)) Graceful) (.initial "boot" "2026" .missing) stopCut s ∧
    Run (Guarded (Step (.plain .systemd)) Graceful) s stopResumed t ∧
    s.db.getTask "a" = some row ∧ t.db.getTask "a" = some new ∧
    row.interruptStage = some (.stop 1 .signal) ∧
    stageLevel row.interruptStage ≤ stageLevel new.interruptStage := by
  have evaluated : (checkedSteps (.plain .systemd) System.graceful
    (.initial "boot" "2026" .missing) stopCut).any
      (fun s => (s.db.getTask "a").any (fun row => row.interruptStage = some (.stop 1 .signal)) &&
        (checkedSteps (.plain .systemd) System.graceful s stopResumed).any (fun t =>
          (t.db.getTask "a").isSome)) = true := by decide +kernel
  obtain ⟨s, ran, both⟩ := Option.any_eq_true _ _ |>.mp evaluated
  obtain ⟨stored, resumed⟩ := Bool.and_eq_true _ _ |>.mp both
  obtain ⟨row, was, stage⟩ := Option.any_eq_true _ _ |>.mp stored
  obtain ⟨t, later, isSome⟩ := Option.any_eq_true _ _ |>.mp resumed
  obtain ⟨new, is⟩ := Option.isSome_iff_exists.mp isSome
  have first := checked_run graceful_sound ran
  have second := checked_run graceful_sound later
  exact ⟨s, t, row, new, first, second, was, is, of_decide_eq_true stage,
    (stage_monotone first second was is).1⟩

/-- A shutdown records sigkill and its controller dies; the next one finds the unit running. -/
def killCut : List Act :=
  firstStart ++ [.submit "a" (.keyed []), .tick "" none, .task "a" .startBegin, .task "a" .accept,
    .task "a" (.startReturn 1), .shutdown 0, .loopEnd, .closing .scheduler, .closing .drain,
    .task "a" (.stop .cancelDone), .closing .gathered, .crash]

/-- The unit is sent SIGINT after sigkill was recorded. -/
theorem resumes_at_first_action : ∃ s t row new,
    Run (Step (.plain .systemd)) (.initial "boot" "2026" .missing) killCut s ∧
    Run (Step (.plain .systemd)) s stopResumed t ∧
    s.db.getTask "a" = some row ∧ t.db.getTask "a" = some new ∧
    row.interruptStage = some .sigkill ∧ new.interruptStage = some (.stop 0 .signal) ∧
    ¬ stageLevel row.interruptStage ≤ stageLevel new.interruptStage := by
  have evaluated : (steps (.plain .systemd) (.initial "boot" "2026" .missing) killCut).any (fun s =>
      (s.db.getTask "a").any (fun row => row.interruptStage = some .sigkill) &&
      (steps (.plain .systemd) s stopResumed).any (fun t =>
        (t.db.getTask "a").any (fun new => new.interruptStage = some (.stop 0 .signal)))) = true := by
    decide +kernel
  obtain ⟨s, ran, both⟩ := Option.any_eq_true _ _ |>.mp evaluated
  obtain ⟨stored, resumed⟩ := Bool.and_eq_true _ _ |>.mp both
  obtain ⟨row, was, killed⟩ := Option.any_eq_true _ _ |>.mp stored
  obtain ⟨t, later, after⟩ := Option.any_eq_true _ _ |>.mp resumed
  obtain ⟨new, is, stopped⟩ := Option.any_eq_true _ _ |>.mp after
  have sigkill := of_decide_eq_true killed
  have first := of_decide_eq_true stopped
  refine ⟨s, t, row, new, steps_run ran, steps_run later, was, is, sigkill, first, ?_⟩
  rw [sigkill, first]
  intro le
  have bounded : (⊤ : WithTop ℕ) ≤ (0 + 1 : ℕ) := WithBot.coe_le_coe.mp le
  exact absurd (top_le_iff.mp bounded) WithTop.coe_ne_top

end Runs
end LocalFlow
