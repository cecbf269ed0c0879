import LocalFlow.Service.Tick

/-! What one step does to one task: its row and its cell move together in one of a few ways, and
every other step leaves both alone. -/
namespace LocalFlow
open Faults
variable {config : Config} {s t : System} {act : Act} {id other : TaskId} {slot : Slot}

/-- One task as its coroutines find it. -/
structure View where
  row : Option TaskRecord
  cell : Cell

def Slot.view (slot : Slot) (id : TaskId) : View := ⟨slot.db.getTask id, slot.cell⟩

def System.view (s : System) (id : TaskId) : View := ⟨s.db.getTask id, s.cells.get id⟩

/-- The row before and after a guarded transition. It stays when its state is not expected or its
snapshot cannot be shown. -/
inductive Writes (expected : List TaskState) (state : TaskState) (fields : List Field) :
    Option TaskRecord → Option TaskRecord → Prop where
  | same (row : Option TaskRecord)
      (why : ∀ r, row = some r → r.state ∈ expected → ¬ Displayable r.pluginSnapshot) :
      Writes expected state fields row row
  | moved (row : TaskRecord) (status : TaskStatus) (expects : row.state ∈ expected) :
      Writes expected state fields (some row) (some (row.moved state fields status))

theorem transition_writes (db : Db) (now : String) (id : TaskId) (expected : List TaskState)
    (state : TaskState) (fields : List Field) (override : Option TaskStatus) :
    Writes expected state fields (db.getTask id)
      ((db.transition now id expected state fields override).1.getTask id) := by
  obtain ⟨raised, row, found, hidden⟩ | ⟨refused, unexpected⟩ | ⟨row, status, found, expects, moved⟩ :=
    db.transition_cases now id expected state fields override
  · rw [raised]
    refine .same _ (fun r same _ => ?_)
    rw [found] at same
    exact Option.some.inj same ▸ hidden
  · rw [refused]
    exact .same _ (fun r same expects => absurd expects (unexpected r same))
  · rw [moved, Db.getTask_move, if_pos rfl, found]
    exact .moved row status expects

/-- What `shutdown_all` does to a task before it waits for the exit. -/
inductive Closes (id : TaskId) : View → View → Prop where
  | asked (slot : Slot) (moment : Moment) (sigint sigterm : Grace) :
      Closes id (slot.view id) ((slot.interrupt moment id sigint sigterm).1.view id)
  | cancelled (view : View) : Closes id view { view with
      cell := { view.cell with sequence := view.cell.sequence.map Sequence.cancel } }
  | forced (view : View) (row : Option TaskRecord)
      (stops : Writes liveStates .stopping [.interruptStage .sigkill] view.row row) :
      Closes id view { view with row }

/-- `recover` is about to end a task. -/
def Recovery.Ends (recovery : Recovery) (a : RecoverAct) (id : TaskId) : Prop :=
  match recovery.point, a with
  | .next, .next =>
    recovery.hostRestarted = true ∧ ∃ task rest, recovery.todo = task :: rest ∧ task.id = id
  | .probing task _ answer, .resume => task.id = id ∧ answer = some false
  | .evaluating task _, .evaluated _ => task.id = id
  | _, _ => False

inductive Moved (config : Config) (s : System) (act : Act) (t : System) (id : TaskId) : Prop where
  | kept (kept : Kept config s t id)
  | started (serving : s.phase = .serving) (row new : TaskRecord)
      (stored : s.db.getTask id = some row) (queued : row.state = .queued)
      (found : t.db.getTask id = some new) (starting : new.state = .starting)
      (cell : t.cells.get id = { s.cells.get id with starter := some .created })
  | enrolled (row : TaskRecord) (missing : s.db.getTask id = none) (unused : s.db.written id = [])
      (found : t.db.getTask id = some row) (queued : row.state = .queued)
      (cell : t.cells.get id = s.cells.get id)
  | own (a : TaskAct) (next : Slot) (isAct : act = .task id a)
      (stepped : (s.slot id).taskStep config (s.moment id) id a = some next)
      (view : t.view id = next.view id)
  | asked (sigint sigterm : Grace) (isAct : act = .interrupt id sigint sigterm)
      (view : t.view id = ((s.slot id).interrupt (s.moment id) id sigint sigterm).1.view id)
  | crashed (middle : System) (kept : Kept config s middle id)
      (row : t.db.getTask id = middle.db.getTask id) (tree : Tree)
      (isTree : tree = (middle.cells.get id).tree.orphan config.backend ∨
        tree = ((middle.cells.get id).tree.orphan config.backend).reboot)
      (cell : t.cells.get id = { tree }) (down : t.phase = .down)
  | settled (recovery : Recovery) (a : RecoverAct) (isAct : act = .recover a)
      (phase : s.phase = .recovering recovery) (ends : recovery.Ends a id) (state : TaskState)
        (fields : List Field) (terminal : state.terminal = true)
      (writes : Writes liveStates state fields (s.db.getTask id) (t.db.getTask id))
      (cell : t.cells.get id = s.cells.get id)
  | watched (recovery : Recovery) (task : TaskRecord) (completed : Option Int)
      (phase : s.phase = .recovering recovery)
      (point : recovery.point = .probing task completed (some true)) (named : task.id = id)
      (row : t.db.getTask id = s.db.getTask id)
      (cell : t.cells.get id = { s.cells.get id with
        waiter := some .created
        sequence := if task.interruptStage.isSome then
          some ⟨.created System.recoveryGrace.1 System.recoveryGrace.2, false⟩
            else (s.cells.get id).sequence })
  | closed (a : ShutdownAct) (isAct : act = .closing a)
      (chain : Relation.ReflTransGen (Closes id) (s.view id) (t.view id))
  | confirmed (exited todo : List TaskId) (confirm : Confirm) (a : ConfirmAct)
      (result : Slot × ConfirmResult) (isAct : act = .closing (.confirm a))
      (phase : s.phase = .closing (.confirming exited id todo confirm))
      (stepped : (s.slot id).confirmStep config.backend (s.moment id) id confirm a = some result)
      (view : t.view id = result.1.view id)

section Views

@[simp] theorem view_slot : (s.slot id).view id = s.view id := rfl

@[simp] theorem view_put (slot : Slot) : (s.put id slot).view id = slot.view id := by
  simp [System.view, System.put, Slot.view]

theorem view_put_other (update : UpdateOf id s.db slot.db) (apart : other ≠ id) :
    (s.put id slot).view other = s.view other := by
  simp only [System.view, System.put, Dict.get_set, if_neg apart, update.frame other apart]

theorem Kept.of_view (same : t.view id = s.view id) : Kept config s t id := by
  have row := congrArg View.row same
  have cell := congrArg View.cell same
  exact .same (congrArg _ row) cell

theorem Moved.rest (same : t.view id = s.view id) : Moved config s act t id :=
  .kept (.of_view same)

end Views

section Submissions
open Db

/-- A submission leaves a row alone, or adds it as queued. -/
inductive Enrolled (db next : Db) (id : TaskId) : Prop where
  | same (row : next.getTask id = db.getTask id)
  | fresh (row : TaskRecord) (missing : db.getTask id = none) (unused : db.written id = [])
      (found : next.getTask id = some row) (queued : row.state = .queued)

theorem enrolled_insertTask {db next : Db} {now createdAt : String} {target : TaskId}
    {draft : TaskCreate} (unused : db.written target = [])
    (inserted : db.insertTask now createdAt target draft = some next) : Enrolled db next id := by
  obtain ⟨missing, status, rows⟩ := getTask_insertTask inserted
  by_cases same : id = target
  · subst same
    exact .fresh _ missing unused (by rw [rows, if_pos rfl]) rfl
  · exact .same (by rw [rows, if_neg same])

theorem enrolled_insertBatchTasks {db next : Db} {now createdAt batchId : String}
    {tasks : List (TaskId × TaskCreate)} {sequence : Nat}
    (unused : ∀ target ∈ tasks.map Prod.fst, db.written target = [])
    (distinct : (tasks.map Prod.fst).Nodup)
    (filled : insertBatchTasks now createdAt batchId tasks sequence db = some next) :
    Enrolled db next id := by
  induction tasks generalizing db sequence with
  | nil =>
    cases filled
    exact .same rfl
  | cons head rest ih =>
    obtain ⟨target, draft⟩ := head
    rw [List.map_cons, List.nodup_cons] at distinct
    simp only [insertBatchTasks, Option.bind_eq_bind, Option.bind_eq_some_iff] at filled
    obtain ⟨inserted, insertion, filled⟩ := filled
    have apart : ∀ other ∈ rest.map Prod.fst, other ≠ target :=
      fun other member same => distinct.1 (same ▸ member)
    have written : ∀ other, other ≠ target → inserted.written other = db.written other :=
      fun other different => by rw [written_insertTask insertion, if_neg different]
    have later := ih (by
      exact fun other member => (written other (apart other member)).trans
        (unused other (List.mem_cons_of_mem _ member))) distinct.2 filled
    have first : Enrolled db inserted id := enrolled_insertTask (unused target (by simp)) insertion
    cases later with
    | same row =>
      cases first with
      | same early => exact .same (row.trans early)
      | fresh new missing never found queued => exact .fresh new missing never (row.trans found) queued
    | fresh new missing never found queued =>
      cases first with
      | same early =>
        have different : id ≠ target := by
          rintro rfl
          change inserted.written id = [] at never
          rw [written_insertTask insertion, if_pos rfl] at never
          simp at never
        refine .fresh new (early ▸ missing) ?_ found queued
        exact (written id different).symm.trans never
      | fresh _ _ _ early =>
        change inserted.getTask id = none at missing
        rw [early] at missing
        cases missing

theorem enrolled_createBatch {db next : Db} {now createdAt batchId template : String}
    {values : Object} {tasks : List (TaskId × TaskCreate)}
    {idempotency : Option (String × String × String × BatchResponse)} {outcome : BatchOutcome}
    (unused : ∀ target ∈ tasks.map Prod.fst, db.written target = [])
    (distinct : (tasks.map Prod.fst).Nodup)
    (created : db.createBatch now createdAt batchId template values tasks idempotency =
      some (next, outcome)) : Enrolled db next id := by
  simp only [createBatch, Option.bind_eq_bind] at created
  split at created
  · split at created
    · cases created
      exact .same rfl
    · cases created
  · split at created
    · cases created
    · obtain ⟨filled, filling, done⟩ := Option.bind_eq_some_iff.mp created
      have rest : Enrolled _ filled id := enrolled_insertBatchTasks (by exact unused) distinct filling
      have isNext : next.getTask id = filled.getTask id := by
        split at done <;> cases done <;> rfl
      cases rest with
      | same row => exact .same (isNext.trans row)
      | fresh row missing never found queued =>
        exact .fresh row missing never (isNext.trans found) queued

end Submissions

section Recovering
variable {recovery : Recovery} {a : RecoverAct}

theorem get_crash : (s.crash config).cells.get id =
    { tree := (s.cells.get id).tree.orphan config.backend } := by
  refine Dict.get_map _ _ ?_
  cases backend : config.backend <;> simp [Tree.orphan, default]

theorem get_reboot (boot : String) : (s.reboot config boot).cells.get id =
    { tree := ((s.cells.get id).tree.orphan config.backend).reboot } := by
  have blank : ∀ key, (s.crash config).cells.get key =
      { tree := (s.cells.get key).tree.orphan config.backend } := fun _ => get_crash
  change (Dict.map _ _).get id = _
  rw [Dict.get_map _ _ rfl, blank]

/-- The controller dies in a step that changed nothing else for the task. -/
theorem moved_crash {middle : System} (kept : Kept config s middle id) :
    Moved config s act (middle.crash config) id :=
  .crashed middle kept rfl _ (.inl rfl) get_crash rfl

theorem moved_settleRecovered {middle : System} {target : TaskId} {state : TaskState}
    {fields : List Field} {after : Recovery} (override : Option TaskStatus) (extra : Option String)
    (same : middle.view id = s.view id) (isAct : act = .recover a)
    (phase : s.phase = .recovering recovery) (ends : recovery.Ends a target)
    (terminal : state.terminal = true) :
    Moved config s act (middle.settleRecovered config after target state fields override extra) id := by
  have noted : ∀ db : Db,
    (extra.elim db (fun kind => db.addEvent middle.wall (some target) kind)).getTask
      = db.getTask := by
    intro db
    cases extra <;> rfl
  have row : middle.db.getTask id = s.db.getTask id := congrArg View.row same
  have cell : middle.cells.get id = s.cells.get id := congrArg View.cell same
  unfold System.settleRecovered
  obtain ⟨raised, _⟩ | ⟨refused, _⟩ | ⟨task, status, found, expects, moved⟩ :=
    middle.db.transition_cases middle.wall target liveStates state fields override
  · rw [raised]
    exact moved_crash (.of_view same)
  · rw [refused]
    refine .kept (.same ?_ cell)
    simp only [noted, row]
  · rw [moved]
    by_cases here : id = target
    · subst here
      refine .settled recovery a isAct phase ends state fields terminal ?_ cell
      simp only [noted, Db.getTask_move, if_true]
      rw [← row, found]
      exact .moved task status expects
    · refine .kept (.same ?_ cell)
      simp only [noted, Db.getTask_move, if_neg here, row]

theorem moved_recoverNext (isAct : act = .recover .next) (phase : s.phase = .recovering recovery)
    (point : recovery.point = .next)
    (stepped : s.recoverNext config recovery = some t) : Moved config s act t id := by
  unfold System.recoverNext at stepped
  split at stepped
  · obtain ⟨key, _, rfl⟩ := Option.map_eq_some_iff.mp stepped
    exact .rest rfl
  · rename_i task rest todo
    dsimp only at stepped
    split at stepped
    · rename_i restarted
      cases stepped
      refine moved_settleRecovered _ _ rfl isAct phase ?_ rfl
      unfold Recovery.Ends
      rw [point]
      exact ⟨restarted, task, rest, todo, rfl⟩
    · split at stepped <;> cases stepped
      · exact moved_crash (.of_view rfl)
      · exact .rest rfl

theorem moved_recoverResume {task : TaskRecord} {completed : Option Int} {running : Bool}
    (isAct : act = .recover .resume) (phase : s.phase = .recovering recovery)
    (point : recovery.point = .probing task completed (some running)) :
    Moved config s act (s.recoverResume config recovery task completed running) id := by
  unfold System.recoverResume
  split
  · exact .rest rfl
  · by_cases here : id = task.id
    · subst here
      refine .watched recovery task completed phase point rfl ?_ ?_
      · dsimp only
        split <;> rfl
      · dsimp only
        split <;>
          simp [System.put, Slot.withWaiter, Slot.startInterrupt, Slot.withSequence, System.slot]
    · refine .rest ?_
      dsimp only
      split <;> simp [System.view, System.put, here, Slot.withWaiter, Slot.startInterrupt,
        Slot.withSequence, System.slot]
  · have ends : recovery.Ends .resume task.id := by
      unfold Recovery.Ends
      rw [point]
      exact ⟨rfl, rfl⟩
    split <;> exact moved_settleRecovered _ _ rfl isAct phase ends rfl

theorem moved_recoverEvaluated {task : TaskRecord} {code : Int} {evaluation : Evaluation}
    (verdict : Verdict) (isAct : act = .recover (.evaluated evaluation))
    (phase : s.phase = .recovering recovery) (point : recovery.point = .evaluating task code) :
    Moved config s act (s.recoverEvaluated config recovery task code verdict) id := by
  have ends : recovery.Ends (.evaluated evaluation) task.id := by
    unfold Recovery.Ends
    rw [point]
  unfold System.recoverEvaluated
  generalize isNoted : (if verdict.failed = true then _ else s : System) = noted
  have same : noted.view id = s.view id := by
    rw [← isNoted]
    split <;> rfl
  dsimp only
  split
  · exact moved_crash (.of_view same)
  · exact moved_settleRecovered _ _ same isAct phase ends (resultState_terminal task code)

theorem Kept.congr {middle : System} (kept : Kept config s middle id)
    (same : t.view id = middle.view id) :
    Kept config s t id := by
  have row : t.db.getTask id = middle.db.getTask id := congrArg View.row same
  have cell : t.cells.get id = middle.cells.get id := congrArg View.cell same
  cases kept with
  | same row' cell' => exact .same (row ▸ row') (cell.trans cell')
  | ended ended gone cell' => exact .ended ended (row.trans gone) (cell ▸ cell')

theorem Kept.source {early : System} (kept : Kept config early t id)
    (same : early.view id = s.view id) : Kept config s t id := by
  have row : early.db.getTask id = s.db.getTask id := congrArg View.row same
  have cell : early.cells.get id = s.cells.get id := congrArg View.cell same
  cases kept with
  | same row' cell' => exact .same (row ▸ row') (cell'.trans cell)
  | ended ended gone cell' => exact .ended (row ▸ ended) gone (cell ▸ cell')

theorem moved_recoverFinish (receiptFails : Bool) (cutoff : String) (faults : Option Nat) :
    Moved config s act (s.recoverFinish config recovery receiptFails cutoff faults) id := by
  unfold System.recoverFinish
  split
  · exact moved_crash (.of_view rfl)
  · have kept : Kept config s ({ s with receipt := recovery.bootId.elim s.receipt .recorded }.upkeep
        config cutoff faults true).state id := (kept_upkeep true).source rfl
    dsimp only
    split
    · exact moved_crash kept
    · exact .kept (kept.congr rfl)

theorem moved_recoverStep (isAct : act = .recover a) (phase : s.phase = .recovering recovery)
    (stepped : s.recoverStep config recovery a = some t) : Moved config s act t id := by
  unfold System.recoverStep at stepped
  split at stepped
  · rename_i point
    exact moved_recoverNext isAct phase point stepped
  · cases stepped
    exact .rest rfl
  · cases stepped
    exact moved_crash (.of_view rfl)
  · rename_i point
    cases stepped
    exact moved_recoverResume isAct phase point
  · rename_i point
    cases stepped
    exact moved_recoverEvaluated _ isAct phase point
  · split at stepped <;> cases stepped
    exact moved_recoverFinish _ _ _
  · cases stepped

end Recovering
section Closing
open Relation

theorem closes_interruptAll (ids : List TaskId) :
    ReflTransGen (Closes id) (s.view id) ((System.interruptAll ids s).1.view id) := by
  induction ids generalizing s with
  | nil => exact .refl
  | cons target rest ih =>
    generalize isResult : (s.slot target).interrupt (s.moment target) target
      System.recoveryGrace.1 System.recoveryGrace.2 = result
    have first : ReflTransGen (Closes id) (s.view id) ((s.put target result.1).view id) := by
      by_cases here : id = target
      · subst here
        rw [view_put, ← isResult]
        exact .single (.asked (s.slot id) _ _ _)
      · have update := update_interrupt (s.moment target) target (s.slot target)
          System.recoveryGrace.1 System.recoveryGrace.2
        rw [isResult] at update
        rw [view_put_other update here]
    unfold System.interruptAll
    dsimp only
    rw [isResult]
    split
    · exact first
    · exact first.trans ih

theorem closes_drain {fuel : Nat} {result : System × Bool}
    (drained : System.drain fuel s = some result) :
    ReflTransGen (Closes id) (s.view id) (result.1.view id) := by
  induction fuel generalizing s with
  | zero => cases drained
  | succ fuel ih =>
    unfold System.drain at drained
    split at drained
    · cases drained
      exact .refl
    · dsimp only at drained
      split at drained
      · cases drained
        exact closes_interruptAll _
      · exact (closes_interruptAll _).trans (ih drained)

@[simp] theorem view_closing (shutdown : Shutdown) : (s.closing shutdown).view id = s.view id := rfl

theorem view_confirmNext (exited todo : List TaskId) :
    (s.confirmNext exited todo).view id = s.view id := by
  induction todo generalizing exited with
  | nil => rfl
  | cons target rest ih =>
    unfold System.confirmNext
    split
    · rfl
    · exact ih _
    · rfl

theorem closes_killNext (delivered todo : List TaskId) :
    ReflTransGen (Closes id) (s.view id) ((s.killNext delivered todo).view id) := by
  unfold System.killNext
  split
  · rw [view_confirmNext]
  · rename_i target rest
    have stops := transition_writes s.db s.wall target liveStates .stopping
      [.interruptStage .sigkill] none
    have update := update_stage s.db s.wall target liveStates .sigkill live_may_stop
    generalize s.db.transition s.wall target liveStates .stopping [.interruptStage .sigkill] = result
      at stops update
    have both : ReflTransGen (Closes id) (s.view id)
      (({ s with db := result.1 } : System).view id) := by
      by_cases here : id = target
      · subst here
        exact .single (.forced (s.view id) _ stops)
      · have same : ({ s with db := result.1 } : System).view id = s.view id := by
          simp only [System.view, update.frame id here]
        rw [same]
    split <;> exact both

theorem cancel_cancel (sequence : Sequence) : sequence.cancel.cancel = sequence.cancel := by
  obtain ⟨point, advance⟩ := sequence
  cases point <;> rfl

theorem get_cancelled (ids : List TaskId) (cells : Dict TaskId Cell) :
    (ids.foldl (fun cells id => cells.set id { cells.get id with
      sequence := (cells.get id).sequence.map Sequence.cancel }) cells).get id =
      if id ∈ ids then { cells.get id with
        sequence := (cells.get id).sequence.map Sequence.cancel } else cells.get id := by
  induction ids generalizing cells with
  | nil => simp
  | cons head rest ih =>
    rw [List.foldl_cons, ih, Dict.get_set]
    by_cases here : id = head
    · subst here
      simp [Function.comp_def, cancel_cancel]
    · simp [here]

theorem closes_forceAll : ReflTransGen (Closes id) (s.view id) (s.forceAll.view id) := by
  unfold System.forceAll
  dsimp only
  split
  · by_cases chosen : id ∈ (s.db.allTasks System.unfinishedStates).map TaskRecord.id
    · refine .single ?_
      have cancelled : Closes id (s.view id) _ := .cancelled (s.view id)
      simpa only [System.view, System.closing, get_cancelled, chosen, if_true] using cancelled
    · simp only [System.view, System.closing, get_cancelled, chosen, if_false]
      exact .refl
  · exact closes_killNext _ _

theorem closes_awaitExits (deadline : Seconds) :
    ReflTransGen (Closes id) (s.view id) ((s.awaitExits deadline).view id) := by
  unfold System.awaitExits
  split
  · split <;> exact .refl
  · exact closes_forceAll

/-- What a step of `shutdown_all` does to one task: it closes it, or confirms its exit. -/
theorem closes_shutdownStep {shutdown : Shutdown} {a : ShutdownAct}
    (stepped : s.shutdownStep config shutdown a = some t) :
    ReflTransGen (Closes id) (s.view id) (t.view id) ∨
    ∃ exited todo confirm b result, a = .confirm b ∧ shutdown = .confirming exited id todo confirm ∧
      (s.slot id).confirmStep config.backend (s.moment id) id confirm b = some result ∧
      t.view id = result.1.view id := by
  unfold System.shutdownStep at stepped
  split at stepped
  · split at stepped <;> cases stepped <;> exact .inl .refl
  · split at stepped
    · obtain ⟨⟨drained, raised⟩, draining, rfl⟩ := Option.map_eq_some_iff.mp stepped
      have chain : ReflTransGen (Closes id) (s.view id) (drained.view id) := closes_drain draining
      dsimp only
      split
      · exact .inl chain
      · exact .inl (chain.trans (closes_awaitExits _))
    · cases stepped
  · split at stepped <;> cases stepped
    exact .inl (closes_awaitExits _)
  · split at stepped <;> cases stepped
    exact .inl (closes_killNext _ _)
  · cases stepped
    exact .inl (closes_killNext _ _)
  · cases stepped
    exact .inl .refl
  · rename_i exited target todo confirm a
    obtain ⟨⟨slot, result⟩, confirming, rfl⟩ := Option.map_eq_some_iff.mp stepped
    have update := update_confirmStep (s.slot target) confirming
    have moved : ∀ next : System, next.view id = (s.put target slot).view id →
        ReflTransGen (Closes id) (s.view id) (next.view id) ∨
        ∃ front rest before b result, ShutdownAct.confirm a = .confirm b ∧
          Shutdown.confirming exited target todo confirm = .confirming front id rest before ∧
          (s.slot id).confirmStep config.backend (s.moment id) id before b = some result ∧
          next.view id = result.1.view id := by
      intro next view
      by_cases here : id = target
      · subst here
        rw [view_put] at view
        exact .inr ⟨exited, todo, confirm, a, (slot, result), rfl, rfl, confirming, view⟩
      · rw [view, view_put_other update here]
        exact .inl .refl
    dsimp only
    split
    · exact moved _ rfl
    · exact moved _ (view_confirmNext _ _)
    · exact moved _ rfl
  · cases stepped

theorem moved_shutdownStep {shutdown : Shutdown} {a : ShutdownAct} (isAct : act = .closing a)
    (phase : s.phase = .closing shutdown) (stepped : s.shutdownStep config shutdown a = some t) :
    Moved config s act t id := by
  have closes := @closes_shutdownStep config s t id shutdown a stepped
  obtain chain | ⟨exited, todo, confirm, b, result, rfl, rfl, confirming, view⟩ := closes
  · exact .closed a isAct chain
  · exact .confirmed exited todo confirm b result isAct phase confirming view

end Closing

/-- Every step moves every task in one of the ways of `Moved`. -/
theorem moved_step (stepped : Step config s act t) (id : TaskId) : Moved config s act t id := by
  unfold Step step at stepped
  split at stepped
  · rename_i _ target a
    obtain ⟨slot, task, rfl⟩ := Option.map_eq_some_iff.mp stepped
    by_cases here : id = target
    · subst here
      exact .own a slot rfl task (view_put _)
    · exact .rest (view_put_other (update_taskStep _ task) here)
  · unfold System.submit at stepped
    split at stepped
    · rename_i unused
      obtain ⟨db, created, rfl⟩ := Option.map_eq_some_iff.mp stepped
      obtain row | ⟨row, missing, never, found, queued⟩ :=
        (enrolled_insertTask unused created : Enrolled s.db db id)
      · exact .rest (by simp only [System.view, row])
      · exact .enrolled row missing never found queued rfl
    · cases stepped
  · unfold System.submitBatch at stepped
    split at stepped
    · rename_i fresh
      obtain ⟨⟨db, outcome⟩, created, rfl⟩ := Option.map_eq_some_iff.mp stepped
      obtain row | ⟨row, missing, never, found, queued⟩ :=
        (enrolled_createBatch fresh.2 fresh.1 created : Enrolled s.db db id)
      · exact .rest (by simp only [System.view, row])
      · exact .enrolled row missing never found queued rfl
    · cases stepped
  · rename_i target sigint sigterm _
    cases stepped
    by_cases here : id = target
    · subst here
      exact .asked sigint sigterm rfl (view_put _)
    · exact .rest (view_put_other
        (update_interrupt (s.moment target) target (s.slot target) sigint sigterm) here)
  · cases stepped
    exact .rest rfl
  · split at stepped <;> cases stepped
    exact .rest rfl
  · rename_i serving
    split at stepped <;> cases stepped
    obtain kept | ⟨row, new, stored, queued, found, starting, cell⟩ :=
      (ticked_tick : Ticked config s _ id)
    · exact .kept kept
    · exact .started serving row new stored queued found starting cell
  · split at stepped <;> cases stepped
    exact .rest rfl
  · cases stepped
    exact moved_crash (.of_view rfl)
  · cases stepped
    exact .crashed s (.of_view rfl) rfl _ (.inr rfl) (get_reboot _) rfl
  · cases stepped
    exact .rest rfl
  · rename_i phase
    exact moved_recoverStep rfl phase stepped
  · cases stepped
    exact .rest rfl
  · rename_i a _ shutdown phase
    exact moved_shutdownStep rfl phase stepped
  · cases stepped

end LocalFlow
