import LocalFlow.Admission
import LocalFlow.Service.Step

/-! Every step of the system is a sequence of edits of the database. -/
namespace LocalFlow
open Faults
variable {accepts : TaskCreate → Prop}

section Stamps
variable {state : TaskState} {fields : List Field}

theorem assign_ended (fields : List Field) {row : TaskRecord} (ended : row.endedAt.isSome) :
    (row.assign fields).endedAt.isSome := by
  unfold TaskRecord.assign
  induction fields generalizing row with
  | nil => exact ended
  | cons field rest ih =>
    refine ih ?_
    cases field <;> first | exact ended | rfl

theorem assign_executorRef (row : TaskRecord)
    (unreferenced : ∀ reference, Field.executorRef reference ∉ fields) :
    (row.assign fields).executorRef = row.executorRef := by
  refine assign_frame row fields TaskRecord.executorRef (fun r field member => ?_)
  cases field <;> first | rfl | exact absurd member (unreferenced _)

theorem stamps_end (ended : state.terminal = true) {now : String} (stamp : Field.endedAt now ∈ fields)
    (unreferenced : ∀ reference, Field.executorRef reference ∉ fields) : Stamps state fields := by
  refine ⟨fun _ row => ?_, fun live => absurd ended (by simp [live]),
    fun _ row => assign_executorRef row unreferenced, fun live => absurd ended (by simp [live])⟩
  obtain ⟨before, after, rfl⟩ := List.append_of_mem stamp
  unfold TaskRecord.assign
  rw [List.foldl_append, List.foldl_cons]
  exact assign_ended after rfl

theorem stamps_live (live : state.terminal = false)
    (unstamped : ∀ now, Field.endedAt now ∉ fields)
    (unreferenced : state ≠ .running → ∀ reference, Field.executorRef reference ∉ fields)
    (plain : ∀ custom, Field.customJson custom ∉ fields) : Stamps state fields := by
  refine ⟨fun ended => absurd ended (by simp [live]), fun _ row => ?_,
    fun other row => assign_executorRef row (unreferenced other), fun _ row => ?_⟩
  · refine assign_frame row fields TaskRecord.endedAt (fun r field member => ?_)
    cases field <;> first | rfl | exact absurd member (unstamped _)
  · refine assign_frame row fields (fun r => r.custom) (fun r field member => ?_)
    cases field <;> first | rfl | exact absurd member (plain _)

end Stamps

section Slots
variable {moment : Moment} {id : TaskId} {backend : Backend} (slot : Slot)

/-- A transition into a terminal state from the states a caller expects. -/
theorem update_end (db : Db) {now : String} (id : TaskId) (expected : List TaskState)
    {state : TaskState} {fields : List Field} (override : Option TaskStatus)
    (legal : ∀ before ∈ expected, before.mayBecome state = true) (ended : state.terminal = true)
    (stamp : Field.endedAt now ∈ fields)
    (unreferenced : ∀ reference, Field.executorRef reference ∉ fields) :
    UpdateOf id db (db.transition now id expected state fields override).1 :=
  update_transition db now id expected state fields override legal
    (stamps_end ended stamp unreferenced) (by
    rintro rfl
    cases ended)

theorem update_stage (db : Db) (now : String) (id : TaskId) (expected : List TaskState)
    (stage : InterruptStage)
    (legal : ∀ before ∈ expected, before.mayBecome .stopping = true) :
    UpdateOf id db (db.transition now id expected .stopping [.interruptStage stage]).1 :=
  update_transition db now id expected .stopping _ none legal
    (stamps_live rfl (by simp) (by simp) (by simp)) (by simp)

theorem live_may_end {state : TaskState} (ended : state.terminal = true) :
    ∀ before ∈ liveStates, before.mayBecome state = true := by
  cases state <;> first | (cases ended; done) | decide

theorem live_may_stop : ∀ before ∈ liveStates, before.mayBecome .stopping = true := by decide

theorem resultState_terminal (task : TaskRecord) (code : Int) :
    (Slot.resultState task code).terminal = true := by
  unfold Slot.resultState
  split
  · rfl
  · split <;> rfl

theorem update_startBegin : UpdateOf id slot.db (slot.startBegin id).db := by
  unfold Slot.startBegin
  split <;> exact .refl _

theorem update_startReturn (hash : String) (pid : Nat) :
    UpdateOf id slot.db (slot.startReturn backend moment id hash pid).db := by
  have moved := update_transition slot.db moment.now id [.starting] .running
    [.pid (startPid backend pid), .executorRef (startReference backend hash id pid)] none
    (by decide) (stamps_live rfl (by simp) (by simp) (by simp)) (by decide)
  unfold Slot.startReturn
  split <;> rename_i same <;> rw [same] at moved <;> exact moved

theorem update_startRaise (task : TaskRecord) :
    UpdateOf id slot.db (slot.startRaise backend moment id task).db :=
  .trans (update_event rfl) (update_end _ _ [.starting] none (by decide) rfl (by simp) (by simp))

theorem update_collected (code : Int) : UpdateOf id slot.db (slot.collected id code).db := by
  unfold Slot.collected
  split
  · exact .refl _
  · split <;> exact .refl _

theorem update_waitRaise (failures : Nat) :
    UpdateOf id slot.db (slot.waitRaise backend moment id failures).db := by
  unfold Slot.waitRaise
  dsimp only
  split <;> exact update_event rfl

theorem update_waitRetry (failures : Nat) :
    UpdateOf id slot.db (slot.waitRetry moment id failures).db :=
  update_event rfl

theorem update_waitProbeError (failures : Nat) :
    UpdateOf id slot.db (slot.waitProbeError moment id failures).db :=
  .trans (update_event rfl) (update_event rfl)

theorem update_waitResume (failures : Nat) (current : TaskRecord) (running : Bool) :
    UpdateOf id slot.db (slot.waitResume backend moment id failures current running).db := by
  unfold Slot.waitResume
  split
  · exact update_waitProbeError _ failures
  · split
    · exact update_waitRetry _ failures
    · split
      · exact update_collected _ _
      · exact update_end _ _ [.running, .starting, .stopping] none (by decide) rfl (by simp) (by simp)

theorem update_waitEvaluated (task : TaskRecord) (code : Int) (verdict : Verdict) :
    UpdateOf id slot.db (slot.waitEvaluated moment id task code verdict).db := by
  have noted : UpdateOf id slot.db
      (if verdict.failed then slot.event moment id "task.result_evaluation_error" else slot).db := by
    split
    · exact update_event rfl
    · exact .refl _
  unfold Slot.waitEvaluated
  dsimp only
  split
  · exact noted
  · have ended := resultState_terminal task code
    refine noted.trans (update_end _ _ [.running, .starting, .stopping] _ ?_ ended (by simp)
      (by simp))
    intro before member
    exact live_may_end ended before (by revert member; cases before <;> simp [liveStates])

theorem update_interrupt (moment : Moment) (id : TaskId) (slot : Slot) (sigint sigterm : Grace) :
    UpdateOf id slot.db (slot.interrupt moment id sigint sigterm).1.db := by
  unfold Slot.interrupt
  split
  · exact .refl _
  · rename_i task _
    split
    · exact update_end _ _ [.queued] none (by decide) rfl (by simp) (by simp)
    · split
      · have frozen : UpdateOf id slot.db (if task.stop.isNone then
            slot.db.snapshotStop id (defaultStop sigint sigterm) else slot.db) := by
          split
          · exact update_snapshotStop _
          · exact .refl _
        have moved := update_stage (if task.stop.isNone then
          slot.db.snapshotStop id (defaultStop sigint sigterm) else slot.db) moment.now id
          [.starting, .running] .requested (by decide)
        dsimp only
        split <;> rename_i same <;> rw [same] at moved <;> exact frozen.trans moved
      · split
        · exact .refl _
        · exact update_event rfl

theorem update_force : UpdateOf id slot.db (slot.force moment id).db := by
  have moved := update_stage slot.db moment.now id liveStates .sigkill
    live_may_stop
  unfold Slot.force
  split <;> rename_i same <;> rw [same] at moved <;> exact moved

theorem update_settle (left : Nat) : UpdateOf id slot.db (slot.settle moment id left).db := by
  unfold Slot.settle
  split
  · exact .refl _
  · split
    · exact .refl _
    · split
      · exact update_force _
      · exact .refl _

theorem update_nextAction (actions : List StopAction) (index : Nat) :
    UpdateOf id slot.db (slot.nextAction moment id actions index).db := by
  unfold Slot.nextAction
  split
  · exact update_settle _ 10
  · rename_i action _
    split
    · exact .refl _
    · split
      · exact .refl _
      · have moved := update_stage slot.db moment.now id liveStates
          (.stop index action.call.kind) live_may_stop
        split <;> rename_i same <;> rw [same] at moved <;> exact moved

theorem update_stopBegin (sigint sigterm : Grace) :
    UpdateOf id slot.db (slot.stopBegin moment id sigint sigterm).db := by
  unfold Slot.stopBegin
  split
  · exact .refl _
  · exact update_nextAction _ _ _

theorem update_pollAction (actions : List StopAction) (index : Nat) (action : StopAction)
    (poll : Poll) : UpdateOf id slot.db (slot.pollAction moment id actions index action poll).db := by
  unfold Slot.pollAction
  split
  · split
    · exact .refl _
    · split
      · exact update_nextAction _ _ _
      · split
        · exact update_nextAction slot.clearAdvance _ _
        · dsimp only
          split
          · exact update_nextAction _ _ _
          · exact .refl _
  · exact update_nextAction _ _ _

theorem update_confirmResume (attempt : Nat) (current : TaskRecord) (running : Bool) :
    UpdateOf id slot.db (slot.confirmResume backend moment id attempt current running).1.db := by
  unfold Slot.confirmResume
  split
  · exact .trans (update_event rfl) (update_event rfl)
  · exact update_event rfl
  · split
    · exact update_event rfl
    · exact update_end _ _ [.stopping] none (by decide) rfl (by simp) (by simp)

theorem update_confirmStep {confirm : Confirm} {act : ConfirmAct} {result : Slot × ConfirmResult}
    (stepped : slot.confirmStep backend moment id confirm act = some result) :
    UpdateOf id slot.db result.1.db := by
  unfold Slot.confirmStep at stepped
  split at stepped
  · split at stepped <;> cases stepped
    exact .refl _
  · cases stepped
    exact .refl _
  · cases stepped
    exact .trans (update_event rfl) (update_event rfl)
  · cases stepped
    exact update_confirmResume _ _ _ _
  · cases stepped
    exact .refl _
  · cases stepped
    exact .refl _
  · cases stepped

theorem db_confirmed (result : Slot × ConfirmResult) : (Slot.confirmed result).db = result.1.db := by
  unfold Slot.confirmed
  split <;> rfl

theorem update_stopStep {point : SequencePoint} {act : StopAct} {next : Slot}
    (stepped : slot.stopStep backend moment id point act = some next) :
    UpdateOf id slot.db next.db := by
  unfold Slot.stopStep at stepped
  split at stepped
  · cases stepped
    exact update_stopBegin _ _ _
  · obtain ⟨action, _, rfl⟩ := Option.map_eq_some_iff.mp stepped
    exact update_pollAction slot.clearAdvance _ _ _ _
  · obtain ⟨_, _, rfl⟩ := Option.map_eq_some_iff.mp stepped
    exact .trans (update_event rfl) (update_nextAction (slot.event _ _ _) _ _)
  · split at stepped
    · obtain ⟨action, _, rfl⟩ := Option.map_eq_some_iff.mp stepped
      exact update_pollAction _ _ _ _ _
    · cases stepped
  · split at stepped <;> cases stepped
    exact update_settle _ _
  · cases stepped
    rw [db_confirmed]
    exact .refl _
  · cases stepped
    exact .refl _
  · obtain ⟨result, confirm, rfl⟩ := Option.map_eq_some_iff.mp stepped
    rw [db_confirmed]
    exact update_confirmStep _ confirm
  · cases stepped
    exact .refl _
  · cases stepped

theorem update_startStep {config : Config} {starter : Option Starter} {act : TaskAct} {next : Slot}
    (stepped : slot.startStep config moment id starter act = some next) :
    UpdateOf id slot.db next.db := by
  unfold Slot.startStep at stepped
  split at stepped
  · cases stepped
    exact update_startBegin _
  · split at stepped <;> cases stepped
    exact update_startReturn _ _ _
  · split at stepped <;> cases stepped
    exact update_startRaise _ _
  · cases stepped

theorem update_waitStep {config : Config} {waiter : Option Waiter} {act : TaskAct} {next : Slot}
    (stepped : slot.waitStep config moment id waiter act = some next) :
    UpdateOf id slot.db next.db := by
  unfold Slot.waitStep at stepped
  split at stepped
  · cases stepped
    exact .refl _
  · split at stepped <;> cases stepped
    exact update_collected (slot.withTree (slot.cell.tree.collect config.backend)) _
  · cases stepped
    exact update_waitRaise _ _
  · cases stepped
    exact .refl _
  · cases stepped
    exact update_waitProbeError _ _
  · cases stepped
    exact update_waitResume _ _ _ _
  · split at stepped <;> cases stepped
    exact .refl _
  · cases stepped
    exact update_waitEvaluated _ _ _ _
  · cases stepped

theorem update_taskStep {config : Config} {act : TaskAct} {next : Slot}
    (stepped : slot.taskStep config moment id act = some next) : UpdateOf id slot.db next.db := by
  unfold Slot.taskStep at stepped
  split at stepped
  all_goals first
    | exact update_startStep _ stepped
    | exact update_waitStep _ stepped
    | (obtain ⟨tree, _, rfl⟩ := Option.map_eq_some_iff.mp stepped; exact .refl _)
    | (obtain ⟨sequence, _, stepped⟩ := Option.bind_eq_some_iff.mp stepped
       exact update_stopStep _ stepped)

end Slots
section Upkeep

/-- A fold of steps that each make edits makes edits. -/
theorem updates_foldl {S A : Type} (db : S → Db) (f : Turn S → A → Turn S)
    (each : ∀ turn a, Updates (db turn.state) (db (f turn a).state)) (items : List A)
    (turn : Turn S) : Updates (db turn.state) (db (items.foldl f turn).state) := by
  induction items generalizing turn with
  | nil => exact .refl
  | cons a rest ih => exact (each turn a).trans (ih (f turn a))

theorem updates_call {S : Type} (db : S → Db) (turn : Turn S) (f : S → S)
    (works : Updates (db turn.state) (db (f turn.state))) :
    Updates (db turn.state) (db (turn.call f).state) :=
  turn.call_relates f (R := fun s t => Updates (db s) (db t)) (fun _ => .refl) works

theorem updates_set {S : Type} (db : S → Db) (turn : Turn S) (f : S → S)
    (works : Updates (db turn.state) (db (f turn.state))) :
    Updates (db turn.state) (db (turn.set f).state) :=
  turn.set_relates f (R := fun s t => Updates (db s) (db t)) (fun _ => .refl) works

theorem updates_removeLog (turn : Turn Upkeep) (id : TaskId) :
    Updates turn.state.db (removeLog turn id).state.db := by
  unfold removeLog
  split
  · exact .refl
  · have removed := updates_call Upkeep.db turn (fun u => { u with logs := u.logs.remove id }) .refl
    exact removed.trans (updates_call Upkeep.db _ _ (updates_setLogSize 0))

theorem updates_shrinkLogs (limit : Nat) (turn : Turn Upkeep) (id : TaskId) :
    Updates turn.state.db (shrinkLogs limit turn id).state.db := by
  unfold shrinkLogs
  split
  · exact .refl
  · split
    · exact .refl
    · split
      · exact .refl
      · exact updates_call Upkeep.db turn _ .refl
      · rename_i purged done
        refine .trans (updates_call Upkeep.db turn _ ?_) (.trans (updates_call Upkeep.db _ _ .refl)
          (updates_set Upkeep.db _ _ .refl))
        exact updates_purgeTerminalTask done

theorem updates_maintain (cutoff : String) (limit : Nat) (monotonic : Seconds)
    (turn : Turn Upkeep) : Updates turn.state.db (maintain cutoff limit monotonic turn).state.db := by
  unfold maintain
  dsimp only
  refine .trans ?_ (updates_set Upkeep.db _ _ .refl)
  refine .trans ?_ (updates_foldl Upkeep.db _ (fun turn _ => updates_call Upkeep.db turn _ .refl) _ _)
  refine .trans ?_ (updates_foldl Upkeep.db _ (updates_shrinkLogs limit) _ _)
  refine .trans ?_ (updates_call Upkeep.db _ _ .refl)
  refine .trans ?_ (updates_call Upkeep.db _ _ .refl)
  refine .trans ?_ (updates_foldl Upkeep.db _ updates_removeLog _ _)
  refine .trans ?_ (updates_call Upkeep.db _ _ .refl)
  obtain raised | called := purgeExpired_cases cutoff turn
  · rw [raised]
    exact .refl
  · rw [called]
    exact updates_call Upkeep.db turn _ (updates_retained cutoff cutoff cutoff)

end Upkeep

namespace System
variable {config : Config} {s t : System}

theorem updates_upkeep (cutoff : String) (faults : Option Nat) (wanted : Bool) :
    Updates s.db (s.upkeep config cutoff faults wanted).state.db := by
  unfold upkeep
  dsimp only [Turn.into_state]
  split
  · exact updates_maintain cutoff config.logLimit s.monotonic
      ⟨{ db := s.db, logs := s.logs, lastCleanup := s.lastCleanup }, faults, false⟩
  · exact .refl

theorem updates_schedule (faults : Option Nat) : Updates s.db (s.schedule config faults).state.db := by
  obtain ⟨_, admits⟩ := schedule_admits config.maxConcurrency s.wall s.monotonic
    ⟨{ db := s.db, cursor := s.queueCursor }, faults, false⟩
  exact admits.updates

theorem updates_tick (cutoff : String) (faults : Option Nat) :
    Updates s.db (s.tick config cutoff faults).db := by
  have turned : Updates s.db (s.turn config cutoff faults).state.db := by
    unfold turn
    dsimp only
    split
    · exact updates_upkeep _ _ _
    · exact (updates_upkeep _ _ _).trans (updates_schedule _)
  unfold tick
  dsimp only
  split <;> exact turned

theorem updates_settleRecovered (recovery : Recovery) (id : TaskId) {state : TaskState}
    {fields : List Field} (override : Option TaskStatus) {extra : Option String}
    (ended : state.terminal = true) (stamp : Field.endedAt s.wall ∈ fields)
    (unreferenced : ∀ reference, Field.executorRef reference ∉ fields)
    (quiet : ∀ kind, extra = some kind → isLifecycle kind = false) :
    Updates s.db (s.settleRecovered config recovery id state fields override extra).db := by
  have moved := (update_end s.db id liveStates override (live_may_end ended) ended stamp
    unreferenced).updates
  unfold settleRecovered
  split <;> rename_i same <;> rw [same] at moved
  · exact moved
  · cases extra with
    | none => exact moved
    | some kind => exact moved.trans (update_event (quiet kind rfl) : UpdateOf id _ _).updates

theorem updates_recoverNext {recovery : Recovery} (stepped : s.recoverNext config recovery = some t) :
    Updates s.db t.db := by
  unfold recoverNext at stepped
  split at stepped
  · obtain ⟨key, _, rfl⟩ := Option.map_eq_some_iff.mp stepped
    exact .refl
  · dsimp only at stepped
    split at stepped
    · cases stepped
      exact updates_settleRecovered _ _ _ rfl (by simp) (by simp) (by rintro _ ⟨⟩; rfl)
    · split at stepped <;> cases stepped <;> exact .refl

theorem updates_recoverResume (recovery : Recovery) (task : TaskRecord) (completed : Option Int)
    (running : Bool) :
    Updates s.db (s.recoverResume config recovery task completed running).db := by
  unfold recoverResume
  split
  · exact .refl
  · dsimp only
    split <;> exact .refl
  · split
    · exact updates_settleRecovered _ _ _ rfl (by simp) (by simp) (by simp)
    · exact updates_settleRecovered _ _ _ rfl (by simp) (by simp) (by simp)

theorem updates_recoverEvaluated (recovery : Recovery) (task : TaskRecord) (code : Int)
    (verdict : Verdict) : Updates s.db (s.recoverEvaluated config recovery task code verdict).db := by
  have noted : Updates s.db (if verdict.failed then
      { s with db := s.db.addEvent s.wall (some task.id) "task.result_evaluation_error" }
        else s).db := by
    split
    · exact UpdateOf.updates (update_event rfl)
    · exact .refl
  unfold recoverEvaluated
  dsimp only
  split
  · exact noted
  · refine noted.trans (updates_settleRecovered _ _ _ (resultState_terminal task code) ?_ (by simp)
      (by simp))
    split <;> simp

theorem updates_recoverFinish (recovery : Recovery) (receiptFails : Bool) (cutoff : String)
    (faults : Option Nat) :
    Updates s.db (s.recoverFinish config recovery receiptFails cutoff faults).db := by
  unfold recoverFinish
  split
  · exact .refl
  · have cleaned : Updates s.db ({ s with receipt := recovery.bootId.elim s.receipt .recorded }.upkeep
        config cutoff faults true).state.db := updates_upkeep cutoff faults true
    dsimp only
    split <;> exact cleaned

theorem updates_recoverStep {recovery : Recovery} {act : RecoverAct}
    (stepped : s.recoverStep config recovery act = some t) : Updates s.db t.db := by
  unfold recoverStep at stepped
  split at stepped
  · exact updates_recoverNext stepped
  · cases stepped
    exact .refl
  · cases stepped
    exact .refl
  · cases stepped
    exact updates_recoverResume _ _ _ _
  · cases stepped
    exact updates_recoverEvaluated _ _ _ _
  · split at stepped <;> cases stepped
    exact updates_recoverFinish _ _ _ _
  · cases stepped

theorem updates_interruptAll (ids : List TaskId) : Updates s.db (interruptAll ids s).1.db := by
  induction ids generalizing s with
  | nil => exact .refl
  | cons id rest ih =>
    have first := (update_interrupt (s.moment id) id (s.slot id) recoveryGrace.1
      recoveryGrace.2).updates
    unfold interruptAll
    dsimp only
    split
    · exact first
    · exact first.trans (ih (s := s.put id _))

theorem updates_drain {fuel : Nat} {result : System × Bool} (drained : drain fuel s = some result) :
    Updates s.db result.1.db := by
  induction fuel generalizing s with
  | zero => cases drained
  | succ fuel ih =>
    unfold drain at drained
    split at drained
    · cases drained
      exact .refl
    · rename_i page _
      dsimp only at drained
      split at drained
      · cases drained
        exact updates_interruptAll _
      · exact (updates_interruptAll _).trans (ih drained)

theorem db_confirmNext (exited todo : List TaskId) : (s.confirmNext exited todo).db = s.db := by
  induction todo generalizing exited with
  | nil => rfl
  | cons id rest ih =>
    unfold confirmNext
    split
    · rfl
    · exact ih _
    · rfl

theorem updates_killNext (delivered todo : List TaskId) :
    Updates s.db (s.killNext delivered todo).db := by
  unfold killNext
  split
  · rw [db_confirmNext]
  · rename_i id rest
    have moved := (update_stage s.db s.wall id liveStates .sigkill live_may_stop).updates
    split <;> rename_i same <;> rw [same] at moved <;> exact moved

theorem updates_forceAll : Updates s.db s.forceAll.db := by
  unfold forceAll
  dsimp only
  split
  · exact .refl
  · exact updates_killNext _ _

theorem updates_awaitExits (deadline : Seconds) : Updates s.db (s.awaitExits deadline).db := by
  unfold awaitExits
  split
  · split <;> exact .refl
  · exact updates_forceAll

theorem updates_shutdownStep {shutdown : Shutdown} {act : ShutdownAct}
    (stepped : s.shutdownStep config shutdown act = some t) : Updates s.db t.db := by
  unfold shutdownStep at stepped
  split at stepped
  · split at stepped <;> cases stepped <;> exact .refl
  · split at stepped
    · obtain ⟨⟨drained, raised⟩, draining, rfl⟩ := Option.map_eq_some_iff.mp stepped
      have changes := updates_drain draining
      dsimp only
      split
      · exact changes
      · exact changes.trans (updates_awaitExits _)
    · cases stepped
  · split at stepped <;> cases stepped
    exact updates_awaitExits _
  · split at stepped <;> cases stepped
    exact updates_killNext _ _
  · cases stepped
    exact updates_killNext _ _
  · cases stepped
    exact .refl
  · obtain ⟨⟨slot, result⟩, confirm, rfl⟩ := Option.map_eq_some_iff.mp stepped
    have changes := (update_confirmStep _ confirm).updates
    dsimp only
    split
    · exact changes
    · rw [db_confirmNext]
      exact changes
    · exact changes
  · cases stepped

end System

def Act.drafts : Act → List TaskCreate
  | .submit _ draft => [draft]
  | .submitBatch _ _ _ tasks _ => tasks.map Prod.snd
  | _ => []

/-- Every step of the system is a sequence of edits. -/
theorem changes_step {config : Config} {s t : System} {act : Act} (stepped : Step config s act t)
    (accepted : ∀ draft ∈ act.drafts, accepts draft) : Changes accepts s.db t.db := by
  unfold Step step at stepped
  split at stepped
  · obtain ⟨slot, task, rfl⟩ := Option.map_eq_some_iff.mp stepped
    exact (update_taskStep _ task).updates.changes
  · rename_i id draft _
    unfold System.submit at stepped
    split at stepped
    · rename_i unused
      obtain ⟨db, created, rfl⟩ := Option.map_eq_some_iff.mp stepped
      exact changes_createTask (accepted draft (by simp [Act.drafts])) unused created
    · cases stepped
  · unfold System.submitBatch at stepped
    split at stepped
    · rename_i fresh
      obtain ⟨⟨db, outcome⟩, created, rfl⟩ := Option.map_eq_some_iff.mp stepped
      exact changes_createBatch accepted fresh.2 fresh.1 created
    · cases stepped
  · rename_i id _ _ _
    cases stepped
    exact (update_interrupt (s.moment id) id (s.slot id) _ _).updates.changes
  · cases stepped
    exact .refl
  · split at stepped <;> cases stepped
    exact .refl
  · split at stepped <;> cases stepped
    exact (System.updates_tick _ _).changes
  · split at stepped <;> cases stepped
    exact .refl
  · cases stepped
    exact .refl
  · cases stepped
    exact .refl
  · cases stepped
    exact .refl
  · exact (System.updates_recoverStep stepped).changes
  · cases stepped
    exact .refl
  · exact (System.updates_shutdownStep stepped).changes
  · cases stepped

end LocalFlow
