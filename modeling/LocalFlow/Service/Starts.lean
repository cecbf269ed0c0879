import LocalFlow.Service.Attendance

/-! What a turn of the scheduler loop leaves of a row, column by column: it notes what blocks the
task, or starts it. No other step starts a task, and only a submission adds one. -/
namespace LocalFlow
open Faults
variable {config : Config} {s t : System} {act : Act} {id : TaskId} {now : String} {monotonic : Seconds}
variable {row mid new : TaskRecord}

/-- A row as the scheduler leaves it: it is what it was up to its notes and its log size, or it was
queued and has been started. -/
inductive Starts (now : String) (monotonic : Seconds) (row new : TaskRecord) : Prop where
  | kept (same : new.core = row.core)
  | started (queued : row.state = .queued) (status : TaskStatus)
      (same : new.core = (row.moved .starting (startFields now monotonic) status).core)

namespace Starts

theorem core_started (row : TaskRecord) (status : TaskStatus) :
    (row.moved .starting (startFields now monotonic) status).core =
      (row.core.moved .starting (startFields now monotonic) status).core := rfl

theorem trans (first : Starts now monotonic row mid) (second : Starts now monotonic mid new) :
    Starts now monotonic row new := by
  cases first with
  | kept same =>
    cases second with
    | kept same' => exact .kept (same'.trans same)
    | started queued status same' =>
      refine .started ((core_state same).symm.trans queued) status ?_
      rw [same', core_started, same, ← core_started]
  | started queued status same =>
    cases second with
    | kept same' => exact .started queued status (same'.trans same)
    | started queued' _ _ =>
      have starting : mid.state = .starting := (core_state same).trans (by simp)
      rw [starting] at queued'
      cases queued'

end Starts

/-- Each row of a database comes from one of an earlier database. -/
def Db.Grows (R : TaskRecord → TaskRecord → Prop) (db next : Db) : Prop :=
  ∀ id new, next.getTask id = some new → ∃ row, db.getTask id = some row ∧ R row new

theorem grows_trans {R : TaskRecord → TaskRecord → Prop} {db middle next : Db}
    (trans : ∀ {a b c}, R a b → R b c → R a c) (first : Db.Grows R db middle)
    (second : Db.Grows R middle next) : Db.Grows R db next := by
  intro id new found
  obtain ⟨mid, isMid, later⟩ := second id new found
  obtain ⟨row, isRow, early⟩ := first id mid isMid
  exact ⟨row, isRow, trans early later⟩

theorem grows_refl (db : Db) : Db.Grows (Starts now monotonic) db db :=
  fun _ new found => ⟨new, found, .kept rfl⟩

theorem grows_noted {db next : Db} (noted : Noted db next) :
    Db.Grows (Starts now monotonic) db next := by
  intro id new found
  obtain ⟨row, isRow, same⟩ := noted.row found
  exact ⟨row, isRow, .kept (core_of_unblocked same).symm⟩

theorem grows_visit {task : TaskRecord} {turn next : Turn Scan}
    (visit : Visit now monotonic task turn next) :
    Db.Grows (Starts now monotonic) turn.state.db next.state.db := by
  cases visit with
  | stopped => exact grows_refl _
  | full => exact grows_refl _
  | skipped next db _ noted state _ =>
    rw [state]
    exact grows_noted noted
  | admitted next db row status _ noted _ found queued state _ =>
    rw [state]
    refine grows_trans Starts.trans (grows_noted noted) (fun id new isNew => ?_)
    dsimp only at isNew
    rw [Db.getTask_move] at isNew
    split at isNew
    · rename_i here
      rw [here, found, Option.map_some, Option.some.injEq] at isNew
      subst here
      exact ⟨row, found, .started queued status (by rw [isNew])⟩
    · exact ⟨new, isNew, .kept rfl⟩

theorem grows_scan (queued : List TaskRecord) (turn : Turn Scan) :
    Db.Grows (Starts now monotonic) turn.state.db
      (queued.foldl (scanTask now monotonic) turn).state.db := by
  induction queued generalizing turn with
  | nil => exact grows_refl _
  | cons task rest ih =>
    exact grows_trans Starts.trans (grows_visit (scanTask_visit now monotonic turn task)) (ih _)

theorem grows_schedule (maxConcurrency : Option Int) (turn : Turn Scan) :
    Db.Grows (Starts now monotonic) turn.state.db
      (schedule maxConcurrency now monotonic turn).state.db := by
  have counting : ∀ (turn : Turn Scan) (f : Scan → Scan), (∀ scan, (f scan).db = scan.db) →
      (turn.call f).state.db = turn.state.db := fun turn f same =>
    turn.call_relates f (R := fun a b => b.db = a.db) (fun _ => rfl) (same _)
  unfold schedule
  dsimp only
  generalize isCounted : turn.call _ = counted
  have start : counted.state.db = turn.state.db := by
    rw [← isCounted]
    exact counting turn _ (fun _ => rfl)
  split
  · rw [start]
    exact grows_refl _
  · rw [(save_state _ _ _).1, ← start]
    generalize queuedPage _ _ _ = page
    split
    · have paged : ∀ cursor,
        (counted.call (fun scan => { scan with cursor })).state.db = counted.state.db :=
        fun cursor => counting counted _ (fun _ => rfl)
      rw [← paged page.1]
      exact grows_scan _ _
    · have paged : ∀ cursor, ((counted.call (fun scan => { scan with cursor })).call
          (fun scan => scan)).state.db = counted.state.db :=
        fun cursor => (counting _ _ (fun _ => rfl)).trans (counting counted _ (fun _ => rfl))
      rw [← paged page.1]
      exact grows_scan _ _

/-- Every row after a turn of the loop was there before, and was kept or started. -/
theorem grows_tick (config : Config) (s : System) (cutoff : String) (faults : Option Nat) :
    Db.Grows (Starts s.wall s.monotonic) s.db (s.tick config cutoff faults).db := by
  have cleaned : ∀ wanted, Db.Grows (Starts s.wall s.monotonic) s.db
      (s.upkeep config cutoff faults wanted).state.db := by
    intro wanted id new found
    obtain ⟨row, isRow, same⟩ := (kept_upkeep wanted : Kept config s _ id).row found
    exact ⟨row, isRow, .kept same.symm⟩
  have turned : Db.Grows (Starts s.wall s.monotonic) s.db (s.turn config cutoff faults).state.db := by
    unfold System.turn
    dsimp only
    split
    · exact cleaned _
    · have early := cleaned (decide (config.cleanupInterval ≤ s.monotonic - s.lastCleanup))
      refine grows_trans Starts.trans early ?_
      exact grows_schedule _ ⟨{ db := _, cursor := _ }, _, false⟩
  unfold System.tick
  dsimp only
  split <;> exact turned

section Ticks

/-- An update of one task starts nothing. -/
theorem UpdateOf.starting {target : TaskId} {db next : Db} (update : UpdateOf target db next)
    (agrees : Agrees db id) (agrees' : Agrees next id) (stored : db.getTask id = some row)
    (found : next.getTask id = some new) (starting : new.state = .starting) :
    row.state = .starting := by
  by_cases here : id = target
  · subst here
    obtain ⟨states, journal, without⟩ := update.journal
    have written : next.written id = db.written id ++ states := by
      simp [Db.written, journal, List.filter_map, Function.comp_def]
    have last := agrees'.current new found
    rw [written, starting] at last
    cases states using List.reverseRecOn with
    | nil =>
      rw [List.append_nil, agrees.current row stored] at last
      exact Option.some.inj last
    | append_singleton front state =>
      rw [← List.append_assoc, List.getLast?_concat, Option.some.injEq] at last
      exact absurd (by simp [last]) without
  · rw [update.frame id here, stored, Option.some.injEq] at found
    rw [found]
    exact starting

/-- Only a turn of the loop starts a queued task. -/
theorem started_tick (agrees : Agrees s.db id) (stepped : Step config s act t)
    (serving : s.phase = .serving) (stored : s.db.getTask id = some row) (queued : row.state = .queued)
    (found : t.db.getTask id = some new) (starting : new.state = .starting) :
    ∃ cutoff faults, act = .tick cutoff faults := by
  have changes : Changes (fun _ => True) s.db t.db := changes_step stepped (fun _ _ => trivial)
  have agrees' : Agrees t.db id := changes.agrees id agrees
  have unstarted : ∀ target : TaskId, ¬ UpdateOf target s.db t.db := by
    intro target update
    have same := update.starting agrees agrees' stored found starting
    rw [queued] at same
    cases same
  have enrolled : ¬ Enrolled s.db t.db id := by
    rintro (same | ⟨_, missing, _⟩)
    · rw [same, stored, Option.some.injEq] at found
      rw [← found, queued] at starting
      cases starting
    · rw [stored] at missing
      cases missing
  have still : t.db ≠ s.db := fun same => unstarted id (same ▸ .refl _)
  unfold Step step at stepped
  rw [serving] at stepped
  split at stepped
  · obtain ⟨slot, moved, rfl⟩ := Option.map_eq_some_iff.mp stepped
    exact absurd (update_taskStep _ moved) (unstarted _)
  · unfold System.submit at stepped
    split at stepped
    · rename_i unused
      obtain ⟨db, created, rfl⟩ := Option.map_eq_some_iff.mp stepped
      exact absurd (enrolled_insertTask unused created) enrolled
    · cases stepped
  · unfold System.submitBatch at stepped
    split at stepped
    · rename_i fresh
      obtain ⟨⟨db, outcome⟩, created, rfl⟩ := Option.map_eq_some_iff.mp stepped
      exact absurd (enrolled_createBatch fresh.2 fresh.1 created) enrolled
    · cases stepped
  · rename_i target sigint sigterm _
    cases stepped
    exact absurd (update_interrupt (s.moment target) target (s.slot target) sigint sigterm)
      (unstarted target)
  · cases stepped
    exact absurd rfl still
  · split at stepped <;> cases stepped
    exact absurd rfl still
  · exact ⟨_, _, rfl⟩
  · rename_i impossible
    cases impossible
  · cases stepped
    exact absurd rfl still
  · cases stepped
    exact absurd rfl still
  · rename_i impossible
    cases impossible
  · rename_i impossible
    cases impossible
  · cases stepped
    exact absurd rfl still
  · rename_i impossible
    cases impossible
  · cases stepped

/-- A task that a step starts keeps every other column. -/
theorem started_row (agrees : Agrees s.db id) (stepped : Step config s act t)
    (serving : s.phase = .serving) (stored : s.db.getTask id = some row) (queued : row.state = .queued)
    (found : t.db.getTask id = some new) (starting : new.state = .starting) :
    ∃ status, new.core = (row.moved .starting (startFields s.wall s.monotonic) status).core := by
  obtain ⟨cutoff, faults, rfl⟩ := started_tick agrees stepped serving stored queued found starting
  unfold Step step at stepped
  rw [serving] at stepped
  dsimp only at stepped
  split at stepped <;> cases stepped
  obtain ⟨old, isOld, kept | ⟨_, status, same⟩⟩ := grows_tick config s cutoff faults id new found
  · rw [stored] at isOld
    cases isOld
    rw [core_state kept, queued] at starting
    cases starting
  · rw [stored] at isOld
    cases isOld
    exact ⟨status, same⟩

end Ticks

section Submissions

/-- A row of the database after a submission: it was there before, or it is fresh and stamped by the
submission. -/
inductive Added (createdAt : String) (db : Db) (id : TaskId) (new : TaskRecord) : Prop where
  | same (stored : db.getTask id = some new)
  | fresh (missing : db.getTask id = none) (draft : TaskCreate) (status : TaskStatus)
      (isNew : new = TaskRecord.fresh id draft createdAt status)

theorem added_insertTask {db next : Db} {createdAt : String} {target : TaskId} {draft : TaskCreate}
    (inserted : db.insertTask now createdAt target draft = some next)
    (found : next.getTask id = some new) : Added createdAt db id new := by
  obtain ⟨missing, status, rows⟩ := Db.getTask_insertTask inserted
  rw [rows] at found
  split at found
  · rename_i here
    cases found
    subst here
    exact .fresh missing draft status rfl
  · exact .same found

theorem added_insertBatchTasks {db next : Db} {createdAt batchId : String}
    {tasks : List (TaskId × TaskCreate)} {sequence : Nat}
    (filled : Db.insertBatchTasks now createdAt batchId tasks sequence db = some next)
    (found : next.getTask id = some new) : Added createdAt db id new := by
  induction tasks generalizing db sequence with
  | nil =>
    cases filled
    exact .same found
  | cons head rest ih =>
    obtain ⟨target, draft⟩ := head
    simp only [Db.insertBatchTasks, Option.bind_eq_bind, Option.bind_eq_some_iff] at filled
    obtain ⟨inserted, insertion, filled⟩ := filled
    obtain stored | ⟨missing, draft', status, isNew⟩ := ih filled
    · exact added_insertTask insertion stored
    · refine .fresh ?_ draft' status isNew
      obtain ⟨_, _, rows⟩ := Db.getTask_insertTask insertion
      have absent : inserted.getTask id = none := missing
      rw [rows] at absent
      split at absent
      · cases absent
      · exact absent

theorem added_createBatch {db next : Db} {createdAt batchId template : String} {values : Object}
    {tasks : List (TaskId × TaskCreate)}
    {idempotency : Option (String × String × String × BatchResponse)} {outcome : Db.BatchOutcome}
    (created : db.createBatch now createdAt batchId template values tasks idempotency =
      some (next, outcome)) (found : next.getTask id = some new) : Added createdAt db id new := by
  simp only [Db.createBatch, Option.bind_eq_bind] at created
  split at created
  · split at created
    · cases created
      exact .same found
    · cases created
  · split at created
    · cases created
    · obtain ⟨filled, filling, done⟩ := Option.bind_eq_some_iff.mp created
      have isNext : next.getTask id = filled.getTask id := by
        split at done <;> cases done <;> rfl
      rw [isNext] at found
      obtain stored | ⟨missing, draft, status, isNew⟩ := added_insertBatchTasks filling found
      · exact .same stored
      · exact .fresh missing draft status isNew

theorem added_step (stepped : Step config s act t) (drafts : act.drafts ≠ [])
    (found : t.db.getTask id = some new) : Added s.wall s.db id new := by
  unfold Step step at stepped
  split at stepped <;> try exact absurd rfl drafts
  · unfold System.submit at stepped
    split at stepped
    · obtain ⟨db, created, rfl⟩ := Option.map_eq_some_iff.mp stepped
      exact added_insertTask created found
    · cases stepped
  · unfold System.submitBatch at stepped
    split at stepped
    · obtain ⟨⟨db, outcome⟩, created, rfl⟩ := Option.map_eq_some_iff.mp stepped
      exact added_createBatch created found
    · cases stepped
  · cases stepped

/-- A task that a step adds is fresh and stamped by the clock. -/
theorem enrolled_row (stepped : Step config s act t) (missing : s.db.getTask id = none)
    (found : t.db.getTask id = some new) :
    ∃ draft status, new = TaskRecord.fresh id draft s.wall status := by
  by_cases drafts : act.drafts = []
  · have updates : Updates s.db t.db := changes_step stepped (by simp [drafts])
    rw [updates.no_row missing] at found
    cases found
  · obtain stored | ⟨_, draft, status, isNew⟩ := added_step stepped drafts found
    · rw [missing] at stored
      cases stored
    · exact ⟨draft, status, isNew⟩

end Submissions
end LocalFlow
