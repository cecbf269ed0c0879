import LocalFlow.Progress
import LocalFlow.Service.Host
import LocalFlow.Shutdown

/-! The scheduler loop catches nothing: it lives until the first turn that raises, and a shutdown
waits for it first. -/
namespace LocalFlow
open Faults Transition
variable {config : Config} {s t : System} {act : Act} {id : TaskId}

section Turns
variable {turn : Turn Scan} {now : String} {monotonic : Seconds}

theorem Noted.displays {db next : Db} (noted : Noted db next) (shown : db.Displays) : next.Displays :=
  noted.updates.displays (fun _ never => never.elim) shown

theorem safe_setBlockedBy (safe : turn.Safe) (id : TaskId) (blockers keys : List String) :
    (setBlockedBy now id blockers keys turn).Safe := by
  unfold setBlockedBy
  split
  · exact safe.call.1.call.1
  · exact safe.call.1

/-- Taking up a task that can be shown raises nothing of its own. -/
theorem safe_scanTask (safe : turn.Safe) (shown : turn.state.db.Displays) (task : TaskRecord) :
    (scanTask now monotonic turn task).Safe ∧ (scanTask now monotonic turn task).state.db.Displays := by
  constructor
  · unfold scanTask
    split
    · exact safe
    split
    · exact safe.set.1
    dsimp only
    have visited := (@Turn.Safe.set _ turn (fun scan => { scan with last := some task }) safe).1
    split
    · obtain ⟨db, wrote⟩ := setBlockedBy_wrote now task.id [] []
        (turn.set (fun scan => { scan with last := some task }))
      have blocked := @safe_setBlockedBy _ now visited task.id [] []
      have still : (setBlockedBy now task.id [] []
          (turn.set (fun scan => { scan with last := some task }))).state.db.Displays := by
        rw [wrote.state]
        refine wrote.noted.displays ?_
        rw [safe.set.2]
        exact shown
      unfold admitTask
      split
      · rename_i db raised
        obtain ⟨_, row, found, dark⟩ | ⟨refused, _⟩ | ⟨_, _, _, _, moved⟩ :=
          (setBlockedBy now task.id [] []
            (turn.set (fun scan => { scan with last := some task }))).state.db.transition_cases
            now task.id [.queued] .starting (startFields now monotonic) none
        · exact absurd (still task.id row found) dark
        · rw [refused] at raised
          cases raised
        · rw [moved] at raised
          cases raised
      · exact blocked.call.1
      · exact blocked.call.1
    · exact safe_setBlockedBy visited task.id _ _
  · generalize isNext : scanTask now monotonic turn task = next
    have visit := scanTask_visit now monotonic turn task
    rw [isNext] at visit
    cases visit with
    | stopped | full => exact shown
    | skipped _ db _ noted state =>
      rw [state]
      exact noted.displays shown
    | admitted _ db row status _ noted _ _ _ state =>
      rw [state]
      intro other new found
      rw [Db.getTask_move] at found
      split at found
      · obtain ⟨old, stored, rfl⟩ := Option.map_eq_some_iff.mp found
        rw [moved_pluginSnapshot]
        exact noted.displays shown other old stored
      · exact noted.displays shown other new found

theorem safe_schedule (limit : Option Int) (safe : turn.Safe) (shown : turn.state.db.Displays) :
    (LocalFlow.schedule limit now monotonic turn).Safe := by
  have scans : ∀ (queued : List TaskRecord) (turn : Turn Scan), turn.Safe → turn.state.db.Displays →
      (queued.foldl (scanTask now monotonic) turn).Safe := by
    intro queued
    induction queued with
    | nil => exact fun _ safe _ => safe
    | cons task rest ih =>
      intro turn safe shown
      obtain ⟨next, still⟩ := safe_scanTask safe shown task
      exact ih _ next still
  unfold LocalFlow.schedule
  dsimp only
  split
  · exact safe.call.1
  · refine (scans _ _ ?_ ?_).set.1
    · split
      · exact safe.call.1.call.1
      · exact safe.call.1.call.1.call.1
    · split
      · rw [safe.call.1.call.2, safe.call.2]
        exact shown
      · rw [Turn.call_same, safe.call.1.call.2, safe.call.2]
        exact shown

/-- The retention of a turn, where it is due, can name every expired task in one statement. -/
def System.Clears (config : Config) (s : System) (cutoff : String) : Prop :=
  config.cleanupInterval ≤ s.monotonic - s.lastCleanup →
    (s.db.terminalTaskIdsBefore cutoff).length ≤ Db.variableLimit

/-- A turn whose calls all succeed does not raise. -/
theorem turn_answers {cutoff : String} (clears : s.Clears config cutoff) (shown : s.db.Displays) :
    (s.turn config cutoff none).raised = false := by
  have cleaned : (s.upkeep config cutoff none
      (config.cleanupInterval ≤ s.monotonic - s.lastCleanup)).raised = false := by
    unfold System.upkeep
    dsimp only
    rw [Turn.into_raised]
    split
    · exact (safe_maintain ⟨rfl, rfl⟩ (clears (of_decide_eq_true ‹_›))).fine
    · rfl
  have faults : (s.upkeep config cutoff none
      (config.cleanupInterval ≤ s.monotonic - s.lastCleanup)).faults = none := by
    unfold System.upkeep
    dsimp only [Turn.into]
    split
    · exact (safe_maintain ⟨rfl, rfl⟩ (clears (of_decide_eq_true ‹_›))).faults
    · rfl
  unfold System.turn
  dsimp only
  rw [if_neg (by rw [cleaned]; simp), faults]
  refine (@safe_schedule ⟨_, none, false⟩ _ _ config.maxConcurrency ⟨rfl, rfl⟩ ?_).fine
  exact (System.updates_upkeep _ _ _).displays (fun _ never => never.elim) shown

end Turns

section Runs

/-- No call of a tick fails, every row can be shown, and every signal of the forced stage is
delivered. -/
structure Faultless (config : Config) (s : System) (act : Act) : Prop where
  faults : ∀ cutoff faults, act = .tick cutoff faults → faults = none ∧ s.Clears config cutoff
  shown : ∀ draft ∈ act.drafts, Displayable draft.pluginSnapshot
  signalled : act ≠ .closing .killRaise ∧ act ≠ .closing (.confirm .killRaise)

/-- The loop runs while the service does, and a shutdown finds it running or finished. -/
def Phase.Lively (loop : Loop) : Phase → Prop
  | .serving => loop = .live
  | .closing _ => loop = .live ∨ loop = .finished
  | _ => True

/-- A shutdown step does not touch the loop. -/
theorem lively_closing {a : ShutdownAct} (lively : s.phase.Lively s.loop)
    (stepped : Step config s (.closing a) t) : t.phase.Lively t.loop := by
  obtain ⟨shutdown, phase, closed⟩ := closing_step stepped
  obtain ⟨next, isNext⟩ := closing_shutdownStep closed
  have same : t.loop = s.loop := frame_shutdownStep (fun _ _ _ _ => rfl) closed
  rw [phase] at lively
  rw [isNext, same]
  exact lively

/-- A tick whose calls all succeed leaves the loop running. -/
theorem loop_tick {cutoff : String} (clears : s.Clears config cutoff) (shown : s.db.Displays)
    (live : s.loop = .live) :
    (s.tick config cutoff none).loop = .live := by
  unfold System.tick
  dsimp only
  rw [if_neg (by rw [turn_answers clears shown]; simp)]
  unfold System.turn
  dsimp only
  split <;> exact live

/-- The recovery starts the loop when it ends. -/
theorem lively_recover {recovery : Recovery} {a : RecoverAct}
    (stepped : s.recoverStep config recovery a = some t) :
    t.phase.Lively t.loop := by
  obtain down | ⟨serving, fails, cutoff, faults, rfl⟩ | ⟨after, isAfter, _⟩ :=
    recoverStep_walked stepped
  · rw [down]
    trivial
  · obtain ⟨_, rfl⟩ := finish_over stepped
    rw [serving]
    unfold System.recoverFinish at serving ⊢
    split at serving
    · cases serving
    · rename_i kept
      rw [if_neg kept]
      dsimp only at serving ⊢
      split at serving
      · cases serving
      · rename_i fine
        rw [if_neg fine]
        rfl
  · rw [isAfter]
    trivial

theorem lively_step (shown : s.db.Displays) (lively : s.phase.Lively s.loop)
    (faultless : Faultless config s act)
    (stepped : Step config s act t) : t.phase.Lively t.loop := by
  have moved := stepped
  unfold Step step at stepped
  split at stepped
  · obtain ⟨slot, _, rfl⟩ := Option.map_eq_some_iff.mp stepped
    exact lively
  · unfold System.submit at stepped
    split at stepped
    · obtain ⟨db, _, rfl⟩ := Option.map_eq_some_iff.mp stepped
      exact lively
    · cases stepped
  · unfold System.submitBatch at stepped
    split at stepped
    · obtain ⟨result, _, rfl⟩ := Option.map_eq_some_iff.mp stepped
      exact lively
    · cases stepped
  · cases stepped
    exact lively
  · cases stepped
    exact lively
  · split at stepped <;> cases stepped
    exact lively
  · rename_i cutoff faults phase
    split at stepped <;> cases stepped
    rename_i live
    obtain ⟨rfl, clears⟩ := faultless.faults cutoff faults rfl
    rw [phase_tick, phase]
    exact loop_tick clears shown live
  · rename_i phase
    split at stepped <;> cases stepped
    rw [phase]
    exact .inr rfl
  · cases stepped
    trivial
  · cases stepped
    trivial
  · cases stepped
    unfold System.recoverBegin
    split <;> trivial
  · exact lively_recover stepped
  · rename_i phase
    cases stepped
    rw [phase] at lively
    exact .inl lively
  · exact lively_closing lively moved
  · cases stepped

end Runs

section Passes

theorem brief_core {a b : TaskRecord} (same : a.core = b.core) : a.brief = b.brief := by
  have briefs := congrArg TaskRecord.brief same
  exact briefs

theorem roles_ids (db : Db) : (db.roles.map Brief.id).Nodup := by
  unfold Db.roles
  rw [List.map_map]
  exact (briefs_ids db).sublist (List.filter_sublist.map Brief.id)

/-- `maintain` leaves the queued and the active tasks alone. -/
theorem roles_upkeep (cutoff : String) (faults : Option Nat) (wanted : Bool) :
    (s.upkeep config cutoff faults wanted).state.db.roles.Perm s.db.roles := by
  have kept := fun id => @kept_upkeep config s id cutoff faults wanted
  generalize (s.upkeep config cutoff faults wanted).state = next at kept
  refine (List.perm_ext_iff_of_nodup (roles_ids _).of_map (roles_ids _).of_map).mpr (fun brief => ?_)
  rw [mem_roles, mem_roles]
  constructor
  · rintro ⟨old, stored, pending, rfl⟩
    obtain ⟨row, found, rfl⟩ := mem_briefs.mp stored
    obtain ⟨was, stood, same⟩ := (kept row.brief.id).row found
    have isBrief := brief_core same
    exact ⟨row.brief, mem_briefs.mpr ⟨was, stood, isBrief⟩, pending, rfl⟩
  · rintro ⟨old, stored, pending, rfl⟩
    obtain ⟨row, found, rfl⟩ := mem_briefs.mp stored
    cases kept row.brief.id with
    | same cores =>
      rw [found, Option.map_some] at cores
      obtain ⟨new, stays, same⟩ := Option.map_eq_some_iff.mp cores
      exact ⟨row.brief, mem_briefs.mpr ⟨new, stays, brief_core same⟩, pending, rfl⟩
    | ended ended =>
      have terminal : row.brief.state.terminal = true := ended row found
      rw [terminal] at pending
      cases pending

def System.queue (s : System) : Queue := ⟨s.db, s.queueCursor⟩

theorem schedule_completes {faults : Option Nat} (answers : (s.schedule config faults).raised = false) :
    Completes config.maxConcurrency s.queue (s.schedule config faults).state.queue := by
  unfold System.schedule at answers ⊢
  dsimp only at answers ⊢
  rw [Turn.into_raised] at answers
  exact ⟨s.wall, s.monotonic, faults, _, rfl, answers, rfl⟩

/-- A turn that answers is one whole pass of `_schedule`. -/
theorem tick_passes {cutoff : String} {faults : Option Nat}
    (answers : (s.turn config cutoff faults).raised = false) :
    Run (QueueStep config.maxConcurrency) s.queue [.other, .tick]
    (s.tick config cutoff faults).queue := by
  have isTick : (s.tick config cutoff faults).queue = (s.turn config cutoff faults).state.queue := by
    unfold System.tick
    dsimp only
    rw [if_neg (by rw [answers]; simp)]
  rw [isTick]
  unfold System.turn at answers ⊢
  dsimp only at answers ⊢
  have calm := @roles_upkeep config s cutoff faults
    (config.cleanupInterval ≤ s.monotonic - s.lastCleanup)
  have cursor : (s.upkeep config cutoff faults
      (config.cleanupInterval ≤ s.monotonic - s.lastCleanup)).state.queueCursor = s.queueCursor := rfl
  generalize s.upkeep config cutoff faults (config.cleanupInterval ≤ s.monotonic - s.lastCleanup) =
    cleaned at *
  have fine : cleaned.raised = false := by
    by_contra raised
    rw [if_pos (by simpa using raised)] at answers
    exact raised answers
  rw [if_neg (by rw [fine]; simp)] at answers ⊢
  have middle : Calm s.queue cleaned.state.queue := ⟨cursor, calm⟩
  exact .cons middle (.single (schedule_completes answers))

theorem mem_expiredIds {db : Db} {cutoff : String} : id ∈ db.terminalTaskIdsBefore cutoff ↔
    ∃ row, db.getTask id = some row ∧ row.state.terminal = true ∧
      row.endedAt.any (fun ended => ended < cutoff) = true := by
  unfold Db.terminalTaskIdsBefore
  simp only [List.mem_map, List.mem_filter, Bool.and_eq_true]
  constructor
  · rintro ⟨row, ⟨member, ended⟩, rfl⟩
    exact ⟨row, Tasks.get?_of_mem member, ended⟩
  · rintro ⟨row, found, ended⟩
    obtain ⟨member, rfl⟩ := Tasks.get?_mem found
    exact ⟨row, ⟨member, ended⟩, rfl⟩

/-- A turn ends no task, so later no more of them have expired. -/
theorem expired_tick (cutoff later : String) (faults : Option Nat) :
    ((s.tick config cutoff faults).db.terminalTaskIdsBefore later).length ≤
    (s.db.terminalTaskIdsBefore later).length := by
  have distinct : ((s.tick config cutoff faults).db.terminalTaskIdsBefore later).Nodup :=
    (s.tick config cutoff faults).db.tasks.primaryKey.sublist (List.filter_sublist.map _)
  refine (List.subperm_of_subset distinct (fun id member => ?_)).length_le
  obtain ⟨new, found, terminal, ended⟩ := mem_expiredIds.mp member
  cases (ticked_tick : Ticked config s (s.tick config cutoff faults) id) with
  | started row other _ _ isOther starting =>
    cases found.symm.trans isOther
    rw [starting] at terminal
    cases terminal
  | kept kept =>
    obtain ⟨row, stored, same⟩ := kept.row found
    refine mem_expiredIds.mpr ⟨row, stored, ?_, ?_⟩
    · rw [core_state same]
      exact terminal
    · have times : row.endedAt = new.endedAt := congrArg (fun r => r.endedAt) same
      rw [times]
      exact ended

/-- As many turns as one likes run one after another, each of them a whole pass. -/
theorem ticks_run (cutoffs : List String)
    (few : ∀ cutoff ∈ cutoffs, (s.db.terminalTaskIdsBefore cutoff).length ≤ Db.variableLimit)
    (shown : s.db.Displays) (phase : s.phase = .serving) (live : s.loop = .live) :
    ∃ t moves, Run (Step config) s (cutoffs.map (fun cutoff => .tick cutoff none)) t ∧
      t.phase = .serving ∧
      t.loop = .live ∧ Run (QueueStep config.maxConcurrency) s.queue moves t.queue ∧
      moves.count .tick = cutoffs.length := by
  induction cutoffs generalizing s with
  | nil => exact ⟨s, [], .nil s, phase, live, .nil _, rfl⟩
  | cons cutoff rest ih =>
    have stepped : Step config s (.tick cutoff none) (s.tick config cutoff none) := by
      unfold Step step
      rw [phase]
      dsimp only
      rw [if_pos live]
    have clears : s.Clears config cutoff := fun _ => few cutoff List.mem_cons_self
    have still := displays_step stepped (by simp [Act.drafts]) shown
    have alive := loop_tick clears shown live
    obtain ⟨t, moves, run, serving, running, passes, count⟩ := ih (fun later member =>
      (expired_tick cutoff later none).trans (few later (List.mem_cons_of_mem _ member))) still
      ((phase_tick _ _).trans phase) alive
    refine ⟨t, _, .cons stepped run, serving, running,
      (tick_passes (turn_answers clears shown)).append passes, ?_⟩
    rw [List.count_append, count, List.length_cons]
    exact Nat.add_comm _ _

/-- A turn ends the loop when a call of it raises, and for no other reason. -/
theorem tick_survives {cutoff : String} {faults : Option Nat}
    (stepped : Step config s (.tick cutoff faults) t) :
    t.loop = .live ↔ (s.turn config cutoff faults).raised = false := by
  unfold Step step at stepped
  split at stepped
  any_goals contradiction
  rename_i isTick phase
  cases isTick
  split at stepped <;> cases stepped
  rename_i live
  constructor
  · intro alive
    by_contra raised
    unfold System.tick at alive
    dsimp only at alive
    rw [if_pos (by simpa using raised)] at alive
    cases alive
  · intro answers
    unfold System.tick
    dsimp only
    rw [if_neg (by rw [answers]; simp)]
    unfold System.turn
    dsimp only
    split <;> exact live

end Passes

end LocalFlow
