import LocalFlow.Service.Recovering
import LocalFlow.Ownership

/-! What holds in every state the controller can reach, whatever fails: histories agree with rows, a
task that has not been started has neither a coroutine nor a process, and a recovery visits started
tasks only. -/
namespace LocalFlow
open Transition
variable {config : Config} {s t : System} {act : Act} {id : TaskId}

/-- `recover` has read, or is deciding about, started tasks only. -/
def Phase.Visits (db : Db) : Phase → Prop
  | .recovering recovery => ∀ task, task ∈ recovery.todo ∨ recovery.point.task = some task →
      db.Started task.id
  | _ => True

structure Sound (s : System) : Prop where
  agrees : ∀ id, Agrees s.db id
  idle : ∀ id, ¬ s.db.Started id → s.cells.get id = {}
  visits : s.phase.Visits s.db

theorem sound_initial (boot wall : String) (receipt : Receipt) :
    Sound (.initial boot wall receipt) :=
  ⟨agrees_empty, fun _ _ => rfl, trivial⟩

/-- A task read as active has been started. -/
theorem Sound.started (sound : Sound s) {row : TaskRecord} (found : s.db.getTask id = some row)
    (started : row.state ≠ .queued) : s.db.Started id :=
  started_of_row (sound.agrees id) found started

theorem Sound.active (sound : Sound s) {row : TaskRecord} (found : s.db.getTask id = some row)
    (active : row.state.active = true) : s.db.Started id := by
  refine sound.started found (fun queued => ?_)
  rw [queued] at active
  cases active

theorem Sound.not_queued (sound : Sound s) {row : TaskRecord} (found : s.db.getTask id = some row)
    (busy : s.cells.get id ≠ {}) : row.state ≠ .queued := by
  have started : s.db.Started id := by
    by_contra fresh
    exact busy (sound.idle id fresh)
  exact started.row (sound.agrees id) found

/-- A task that was never submitted has nothing but its blank cell. -/
theorem Sound.unsubmitted (sound : Sound s) (unused : s.db.written id = []) : s.cells.get id = {} := by
  refine sound.idle id (fun started => ?_)
  obtain ⟨state, member, _⟩ := started
  rw [unused] at member
  cases member

section Phases

/-- Where a step of another kind leaves the phase. -/
theorem phase_step (stepped : Step config s act t) :
    t.phase = s.phase ∨ t.phase = .serving ∨ t.phase = .down ∨
    (∃ readable, act = .recoverBegin readable) ∨ (∃ a, act = .recover a) ∨ (∃ a, act = .closing a) ∨
    s.phase = .serving ∧ ∃ timeout, t.phase = .closing (.awaitingScheduler timeout) := by
  by_cases serving : s.phase = .serving
  · obtain same | down | closing := phase_serving serving stepped
    · exact .inl (same.trans serving.symm)
    · exact .inr (.inr (.inl down))
    · exact .inr (.inr (.inr (.inr (.inr (.inr ⟨serving, closing⟩)))))
  unfold Step step at stepped
  split at stepped
  · obtain ⟨slot, _, rfl⟩ := Option.map_eq_some_iff.mp stepped
    exact .inl rfl
  · rename_i impossible
    exact absurd impossible serving
  · rename_i impossible
    exact absurd impossible serving
  · rename_i impossible
    exact absurd impossible serving
  · cases stepped
    exact .inl rfl
  · split at stepped <;> cases stepped
    exact .inl rfl
  · rename_i impossible
    exact absurd impossible serving
  · split at stepped <;> cases stepped
    exact .inl rfl
  · cases stepped
    exact .inr (.inr (.inl rfl))
  · cases stepped
    exact .inr (.inr (.inl rfl))
  · exact .inr (.inr (.inr (.inl ⟨_, rfl⟩)))
  · exact .inr (.inr (.inr (.inr (.inl ⟨_, rfl⟩))))
  · rename_i impossible
    exact absurd impossible serving
  · exact .inr (.inr (.inr (.inr (.inr (.inl ⟨_, rfl⟩)))))
  · cases stepped

/-- A shutdown goes on as one. -/
theorem closing_confirmNext (exited todo : List TaskId) :
    ∃ shutdown, (s.confirmNext exited todo).phase = .closing shutdown := by
  induction todo generalizing exited with
  | nil => exact ⟨_, rfl⟩
  | cons head rest ih =>
    unfold System.confirmNext
    split
    · exact ⟨_, rfl⟩
    · exact ih _
    · exact ⟨_, rfl⟩

theorem closing_killNext (delivered todo : List TaskId) :
    ∃ shutdown, (s.killNext delivered todo).phase = .closing shutdown := by
  unfold System.killNext
  split
  · exact closing_confirmNext _ _
  · split <;> exact ⟨_, rfl⟩

theorem closing_awaitExits (deadline : Seconds) :
    ∃ shutdown, (s.awaitExits deadline).phase = .closing shutdown := by
  unfold System.awaitExits
  split
  · split <;> exact ⟨_, rfl⟩
  · unfold System.forceAll
    dsimp only
    split
    · exact ⟨_, rfl⟩
    · exact closing_killNext _ _

theorem closing_shutdownStep {shutdown : Shutdown} {a : ShutdownAct}
    (stepped : s.shutdownStep config shutdown a = some t) : ∃ next, t.phase = .closing next := by
  unfold System.shutdownStep at stepped
  split at stepped
  · split at stepped <;> cases stepped <;> exact ⟨_, rfl⟩
  · split at stepped
    · obtain ⟨⟨drained, raised⟩, _, rfl⟩ := Option.map_eq_some_iff.mp stepped
      dsimp only
      split
      · exact ⟨_, rfl⟩
      · exact closing_awaitExits _
    · cases stepped
  · split at stepped <;> cases stepped
    exact closing_awaitExits _
  · split at stepped <;> cases stepped
    exact closing_killNext _ _
  · cases stepped
    exact closing_killNext _ _
  · cases stepped
    exact ⟨_, rfl⟩
  · obtain ⟨⟨slot, result⟩, _, rfl⟩ := Option.map_eq_some_iff.mp stepped
    dsimp only
    split
    · exact ⟨_, rfl⟩
    · exact closing_confirmNext _ _
    · exact ⟨_, rfl⟩
  · cases stepped

theorem Phase.Visits.grows {db next : Db} {accepts : TaskCreate → Prop} {phase : Phase}
    (visits : phase.Visits db) (changes : Changes accepts db next) : phase.Visits next := by
  unfold Phase.Visits at visits ⊢
  split at visits
  · exact fun task member => started_grows changes (visits task member)
  · trivial

/-- The tasks a recovery visits next are started. -/
theorem Sound.walked (sound : Sound s) {recovery after : Recovery}
    (phase : s.phase = .recovering recovery)
    (walked : Walked config s recovery after) {task : TaskRecord}
    (visited : task ∈ after.todo ∨ after.point.task = some task) : s.db.Started task.id := by
  have before := sound.visits
  rw [phase] at before
  obtain member | point := visited
  · obtain old | ⟨stored, active⟩ := walked.todo task member
    · exact before task (.inl old)
    · exact sound.active stored active
  · have walks := walked.point
    generalize after.point = reached at walks point
    cases walks with
    | next => cases point
    | probe head rest completed _ todo =>
      cases point
      exact before task (.inl (by rw [todo]; exact List.mem_cons_self))
    | asked same completed was =>
      cases point
      exact before task (.inr (by rw [was]; rfl))
    | ended same code was =>
      cases point
      exact before task (.inr (by rw [was]; rfl))

theorem Sound.step (sound : Sound s) (stepped : Step config s act t) : Sound t := by
  have changes : Changes (fun _ => True) s.db t.db := changes_step stepped (fun _ _ => trivial)
  have agrees := fun id => changes.agrees id (sound.agrees id)
  refine ⟨agrees, fun id fresh => ?_, ?_⟩
  · refine idle_step stepped (agrees id) fresh
      (sound.idle id (fun started => fresh (started_grows changes started))) ?_
    intro recovery task completed phase point
    have visits := sound.visits
    rw [phase] at visits
    exact visits task (.inr (by rw [point]; rfl))
  · obtain same | serving | down | ⟨readable, rfl⟩ | ⟨a, rfl⟩ | ⟨a, rfl⟩ | ⟨_, timeout, closing⟩ :=
      phase_step stepped
    · rw [same]
      exact sound.visits.grows changes
    · rw [serving]
      trivial
    · rw [down]
      trivial
    · obtain ⟨_, rfl⟩ := recoverBegin_step stepped
      rintro task (member | impossible)
      · obtain ⟨stored, active⟩ := ownedPage_active member
        exact sound.active stored active
      · cases impossible
    · obtain ⟨recovery, phase, recovered⟩ := recover_step stepped
      obtain down | ⟨serving, _⟩ | ⟨after, isAfter, walked⟩ := recoverStep_walked recovered
      · rw [down]
        trivial
      · rw [serving]
        trivial
      · rw [isAfter]
        exact fun task visited => started_grows changes (sound.walked phase walked visited)
    · obtain ⟨shutdown, _, closed⟩ := closing_step stepped
      obtain ⟨next, isNext⟩ := closing_shutdownStep closed
      rw [isNext]
      trivial
    · rw [closing]
      trivial

/-- Every reachable state is sound. -/
theorem sound_run {boot wall : String} {receipt : Receipt} {acts : List Act}
    (run : Run (Step config) (.initial boot wall receipt) acts s) : Sound s :=
  run.invariant (fun sound stepped => sound.step stepped) (sound_initial boot wall receipt)

end Phases
end LocalFlow
