import LocalFlow.Service.Closing
import LocalFlow.Service.Attendance

/-! What `shutdown_all` leaves behind: nothing when it returns, and at most the task it could not
signal when it raises, as long as every other task has ended by then. -/
namespace LocalFlow
open Transition
variable {config : Config} {s t : System} {act : Act} {id : TaskId} {left : Db → Prop}

/-- What a shutdown still has to do, where it is suspended, and what it has left when it has raised. -/
def Shutdown.Winds (left : Db → Prop) (db : Db) : Shutdown → Prop
  | .awaitingScheduler _ | .awaitingStarters _ => True
  | .waiting _ _ => db.Stopping
  | .cancelling remaining => Tallies db remaining
  | .killing delivered current todo => Tallies db (delivered ++ current :: todo)
  | .confirming _ current todo _ => Tallies db (current :: todo)
  | .returned => ∀ id, ¬ db.Pends id
  | .raised => left db

/-- The task the forced stage is signalling. -/
def System.signalled (s : System) : Option TaskId :=
  match s.phase with
  | .closing (.killing _ current _) | .closing (.confirming _ current _ _) => some current
  | _ => none

/-- A signal of the forced stage fails only when every other task has ended. The store can show every
row, and the scheduler loop has not failed. -/
structure Spared (s : System) (act : Act) : Prop where
  shown : ∀ draft ∈ act.drafts, Displayable draft.pluginSnapshot
  scheduled : act = .closing .scheduler → s.loop ≠ .failed
  lone : act = .closing .killRaise ∨ act = .closing (.confirm .killRaise) →
    ∀ id, s.db.Pends id → s.signalled = some id

section Steps

/-- While the controller shuts down, the only other steps are those of single tasks, of their logs, of
the clock and of the scheduler loop. -/
theorem shutting_step {shutdown : Shutdown} (phase : s.phase = .closing shutdown)
    (survives : act.survives = true) (stepped : Step config s act t) :
    (∃ id a slot, act = .task id a ∧ (s.slot id).taskStep config (s.moment id) id a = some slot ∧
      t = s.put id slot) ∨
    ((∀ id a, act ≠ .task id a) ∧ (∀ a, act ≠ .closing a) ∧ t.db = s.db ∧ t.cells = s.cells ∧
      t.phase = .closing shutdown ∧ s.monotonic ≤ t.monotonic ∧
      (act = .loopEnd ∧ t.loop = .finished ∨ act ≠ .loopEnd ∧ t.loop = s.loop)) ∨
    ∃ a, act = .closing a ∧ s.shutdownStep config shutdown a = some t := by
  unfold Step step at stepped
  rw [phase] at stepped
  split at stepped
  · rename_i id a
    obtain ⟨slot, moved, rfl⟩ := Option.map_eq_some_iff.mp stepped
    exact .inl ⟨id, a, slot, rfl, moved, rfl⟩
  · rename_i impossible
    cases impossible
  · rename_i impossible
    cases impossible
  · rename_i impossible
    cases impossible
  · cases stepped
    exact .inr (.inl ⟨by simp, by simp, rfl, rfl, phase, le_rfl, .inr ⟨by simp, rfl⟩⟩)
  · split at stepped <;> cases stepped
    rename_i later
    exact .inr (.inl ⟨by simp, by simp, rfl, rfl, rfl, later, .inr ⟨by simp, rfl⟩⟩)
  · rename_i impossible
    cases impossible
  · split at stepped <;> cases stepped
    exact .inr (.inl ⟨by simp, by simp, rfl, rfl, rfl, le_rfl, .inl ⟨rfl, rfl⟩⟩)
  · cases survives
  · cases survives
  · rename_i impossible
    cases impossible
  · rename_i impossible
    cases impossible
  · rename_i impossible
    cases impossible
  · rename_i a _ _ same
    cases same
    exact .inr (.inr ⟨_, rfl, stepped⟩)
  · cases stepped

theorem Shutdown.Winds.update {target : TaskId} {db next : Db} {shutdown : Shutdown}
    (keeps : left db → left next) (winds : shutdown.Winds left db) (update : UpdateOf target db next) :
    shutdown.Winds left next := by
  cases shutdown with
  | awaitingScheduler | awaitingStarters => trivial
  | waiting => exact update.updates.stopping winds
  | cancelling | killing | confirming => exact Tallies.update winds update
  | returned => exact fun id pends => winds id (update.updates.pends pends)
  | raised => exact keeps winds

/-- The head of the loop of `_confirm_forced_exit` for a stored task. -/
theorem looked_confirmLoop {slot : Slot} {moment : Moment} {row : TaskRecord}
    (found : slot.db.getTask id = some row) (attempt : Nat) :
    row.state.terminal = true ∧ slot.confirmLoop moment id attempt = .returned ∨
    row.state.terminal = false ∧ ∃ confirm, slot.confirmLoop moment id attempt = .awaiting confirm := by
  unfold Slot.confirmLoop
  rw [found]
  dsimp only
  cases row.state.terminal with
  | false => exact .inr ⟨rfl, _, rfl⟩
  | true => exact .inl ⟨rfl, rfl⟩

/-- The confirmations go on with every task that is left. -/
theorem winds_confirmNext (exited : List TaskId) {todo : List TaskId} (tallies : Tallies s.db todo) :
    ∃ next, s.confirmNext exited todo = s.closing next ∧ next.Winds left s.db := by
  induction todo generalizing exited with
  | nil =>
    refine ⟨_, rfl, fun id pends => ?_⟩
    exact absurd (tallies.listed id pends) List.not_mem_nil
  | cons head rest ih =>
    obtain ⟨row, found⟩ := Option.isSome_iff_exists.mp (tallies.stored head List.mem_cons_self)
    have looked := @looked_confirmLoop head (s.slot head) (s.moment head) row found 0
    unfold System.confirmNext
    obtain ⟨ended, returned⟩ | ⟨_, confirm, awaiting⟩ := looked
    · rw [returned]
      exact ih (exited ++ [head]) (tallies.ended found ended)
    · rw [awaiting]
      exact ⟨_, rfl, tallies⟩

/-- The next task of the list gets its SIGKILL. -/
theorem winds_killNext {delivered todo : List TaskId} (tallies : Tallies s.db (delivered ++ todo))
    (shown : (∀ db, left db) ∨ s.db.Displays) :
    ∃ next, (s.killNext delivered todo).phase = .closing next ∧
      next.Winds left (s.killNext delivered todo).db := by
  unfold System.killNext
  split
  · rw [List.append_nil] at tallies
    obtain ⟨next, isNext, winds⟩ := @winds_confirmNext s left [] _ tallies
    rw [isNext]
    exact ⟨next, rfl, winds⟩
  · rename_i current rest
    have update := update_stage s.db s.wall current liveStates .sigkill live_may_stop
    split
    · rename_i db raised
      refine ⟨_, rfl, ?_⟩
      obtain ⟨_, row, found, dark⟩ | ⟨refused, _⟩ | ⟨_, _, _, _, moved⟩ :=
        s.db.transition_cases s.wall current liveStates .stopping [.interruptStage .sigkill] none
      · exact shown.elim (fun any => any _) (fun shown => absurd (shown current row found) dark)
      · rw [refused] at raised
        cases raised
      · rw [moved] at raised
        cases raised
    · rename_i db reply _ result
      rw [result] at update
      exact ⟨_, rfl, tallies.update update⟩

theorem winds_awaitExits (deadline : Seconds) (stopping : s.db.Stopping)
    (shown : (∀ db, left db) ∨ s.db.Displays) :
    ∃ next, (s.awaitExits deadline).phase = .closing next ∧
      next.Winds left (s.awaitExits deadline).db := by
  unfold System.awaitExits
  split
  · split
    · rename_i empty
      exact ⟨_, rfl, fun id => pends_unfinished empty⟩
    · exact ⟨_, rfl, stopping⟩
  · have tallies := tallies_unfinished stopping
    unfold System.forceAll
    dsimp only
    split
    · exact ⟨_, rfl, tallies⟩
    · exact @winds_killNext s left [] _ tallies shown

/-- A failed signal changes nothing. -/
theorem killRaise_db {slot : Slot} {moment : Moment} {confirm : Confirm} {result : Slot × ConfirmResult}
    (stepped : slot.confirmStep config.backend moment id confirm .killRaise = some result) :
    result = (slot, .raised) := by
  unfold Slot.confirmStep at stepped
  split at stepped
  any_goals contradiction
  cases stepped
  rfl

/-- A step of a confirmation keeps the list, goes on to the rest of it, or fails to signal. -/
theorem winds_confirm {exited todo : List TaskId} {current : TaskId} {confirm : Confirm}
    {a : ConfirmAct}
    {result : Slot × ConfirmResult} (tallies : Tallies s.db (current :: todo))
    (shown : (∀ db, left db) ∨ s.db.Displays)
    (stepped : (s.slot current).confirmStep config.backend (s.moment current) current confirm a =
      some result)
    (fails : a = .killRaise → left s.db) :
    ∃ next, (match result.2 with
        | .awaiting confirm =>
          (s.put current result.1).closing (.confirming exited current todo confirm)
        | .returned => (s.put current result.1).confirmNext (exited ++ [current]) todo
        | .raised => (s.put current result.1).closing .raised) = (s.put current result.1).closing next ∧
      next.Winds left result.1.db := by
  have update : UpdateOf current s.db result.1.db := update_confirmStep _ stepped
  have after := tallies.update update
  have confirms := confirms_confirmStep stepped
  obtain ⟨slot, outcome⟩ := result
  cases confirms with
  | awaiting confirm => exact ⟨_, rfl, after⟩
  | ended _ row ended =>
    obtain ⟨r, found, terminal⟩ := ended
    exact @winds_confirmNext (s.put current slot) left (exited ++ [current]) todo
      (after.ended (row.trans found) terminal)
  | confirmed _ _ _ _ _ elsewhere =>
    obtain ⟨r, found⟩ := Option.isSome_iff_exists.mp (after.stored current List.mem_cons_self)
    refine @winds_confirmNext (s.put current slot) left (exited ++ [current]) todo
      (after.ended found ?_)
    by_contra pending
    exact elsewhere r found (after.stopping current r found (by simpa using pending))
  | raised _ _ why =>
    refine ⟨_, rfl, ?_⟩
    obtain rfl | missing | ⟨r, found, dark⟩ := why
    · rw [killRaise_db stepped]
      exact fails rfl
    · have stored := tallies.stored current List.mem_cons_self
      rw [show s.db.getTask current = none from missing] at stored
      cases stored
    · exact shown.elim (fun any => any _) (fun shown => absurd (shown current r found) dark)

/-- Where a shutdown is after one of its steps. It raises when the loop has failed or a signal fails,
and for no other reason if every row can be shown. -/
theorem Shutdown.Winds.step {shutdown : Shutdown} {a : ShutdownAct} (winds : shutdown.Winds left s.db)
    (shown : (∀ db, left db) ∨ s.db.Displays)
    (scheduled : a = .scheduler → s.loop = .failed → left s.db)
    (fails : a = .killRaise ∨ a = .confirm .killRaise → left s.db)
    (stepped : s.shutdownStep config shutdown a = some t) :
    ∃ next, t.phase = .closing next ∧ next.Winds left t.db := by
  unfold System.shutdownStep at stepped
  split at stepped
  · split at stepped
    · cases stepped
    · rename_i failed
      cases stepped
      exact ⟨_, rfl, scheduled rfl failed⟩
    · cases stepped
      exact ⟨_, rfl, trivial⟩
    · cases stepped
      exact ⟨_, rfl, trivial⟩
  · split at stepped
    · obtain ⟨⟨drained, raised⟩, draining, rfl⟩ := Option.map_eq_some_iff.mp stepped
      cases raised with
      | true =>
        refine ⟨_, rfl, shown.elim (fun any => any _) (fun shown => ?_)⟩
        have answers := drain_answers draining shown
        cases answers
      | false =>
        refine winds_awaitExits _ (drain_stopping draining) (shown.imp_right (fun shown => ?_))
        exact (System.updates_drain draining).displays (fun _ never => never.elim) shown
    · cases stepped
  · split at stepped <;> cases stepped
    exact winds_awaitExits _ winds shown
  · split at stepped <;> cases stepped
    exact @winds_killNext s left [] _ winds shown
  · rename_i delivered current todo
    cases stepped
    refine winds_killNext ?_ shown
    rw [List.append_assoc]
    exact winds
  · rename_i delivered current todo
    cases stepped
    exact ⟨_, rfl, fails (.inl rfl)⟩
  · rename_i exited current todo confirm a
    obtain ⟨⟨slot, outcome⟩, confirming, rfl⟩ := Option.map_eq_some_iff.mp stepped
    obtain ⟨next, isNext, after⟩ :=
      @winds_confirm config s left exited todo current confirm a _ winds shown confirming
      (fun isKill => fails (.inr (congrArg _ isKill)))
    refine ⟨next, congrArg System.phase isNext, ?_⟩
    exact (congrArg System.db isNext : _ = slot.db).symm ▸ after
  · cases stepped

end Steps

section Runs

/-- Where a step leaves a shutdown. -/
theorem winds_step (keeps : ∀ {db next : Db} {target : TaskId}, UpdateOf target db next → left db →
      left next)
    (before : ∀ shutdown, s.phase = .closing shutdown → shutdown.Winds left s.db)
    (shown : (∀ db, left db) ∨ s.db.Displays) (stepped : Step config s act t)
    (scheduled : act = .closing .scheduler → s.loop = .failed → left s.db)
    (fails : act = .closing .killRaise ∨ act = .closing (.confirm .killRaise) → left s.db)
    {shutdown : Shutdown} (closing : t.phase = .closing shutdown) : shutdown.Winds left t.db := by
  by_cases survives : act.survives = true
  swap
  · have down := (crash_step (by simpa using survives) stepped).1
    cases down.symm.trans closing
  by_cases early : ∃ was, s.phase = .closing was
  · obtain ⟨was, phase⟩ := early
    have winds := before was phase
    obtain ⟨id, a, slot, _, moved, rfl⟩ | ⟨_, _, db, _, same, _⟩ | ⟨a, rfl, closed⟩ :=
      shutting_step phase survives stepped
    · cases phase.symm.trans closing
      have update := update_taskStep (s.slot id) moved
      exact winds.update (keeps update) update
    · cases same.symm.trans closing
      rw [db]
      exact winds
    · obtain ⟨next, isNext, after⟩ := winds.step shown (fun isAct => scheduled (congrArg _ isAct))
        (fun isAct => fails (isAct.imp (congrArg _) (congrArg _))) closed
      cases isNext.symm.trans closing
      exact after
  · obtain same | serving | down | ⟨readable, rfl⟩ | ⟨a, rfl⟩ | ⟨a, rfl⟩ | ⟨_, timeout, begun⟩ :=
      phase_step stepped
    · exact absurd ⟨shutdown, same.symm.trans closing⟩ early
    · cases serving.symm.trans closing
    · cases down.symm.trans closing
    · obtain ⟨_, rfl⟩ := recoverBegin_step stepped
      cases closing
    · obtain ⟨recovery, _, recovered⟩ := recover_step stepped
      obtain down | ⟨serving, _⟩ | ⟨after, isAfter, _⟩ := recoverStep_walked recovered
      · cases down.symm.trans closing
      · cases serving.symm.trans closing
      · cases isAfter.symm.trans closing
    · obtain ⟨was, phase, _⟩ := closing_step stepped
      exact absurd ⟨was, phase⟩ early
    · cases begun.symm.trans closing
      trivial

/-- At most one task is left. -/
def Db.Lone (db : Db) : Prop := ∀ a b, db.Pends a → db.Pends b → a = b

theorem Spared.lone_left (spared : Spared s act)
    (failed : act = .closing .killRaise ∨ act = .closing (.confirm .killRaise)) : s.db.Lone := by
  intro a b first second
  exact Option.some.inj ((spared.lone failed a first).symm.trans (spared.lone failed b second))

variable {boot wall : String} {receipt : Receipt} {acts : List Act}

/-- A failed signal ends the forced stage, and leaves every row as it is. -/
theorem failed_signal {a : ShutdownAct} (failed : a = .killRaise ∨ a = .confirm .killRaise)
    (stepped : Step config s (.closing a) t) :
    t.phase = .closing .raised ∧ t.db = s.db := by
  obtain ⟨shutdown, phase, closed⟩ := closing_step stepped
  clear phase
  unfold System.shutdownStep at closed
  obtain rfl | rfl := failed
  · split at closed
    any_goals contradiction
    cases closed
    exact ⟨rfl, rfl⟩
  · split at closed
    any_goals contradiction
    rename_i isAct
    cases isAct
    obtain ⟨result, confirming, rfl⟩ := Option.map_eq_some_iff.mp closed
    rw [killRaise_db confirming]
    exact ⟨rfl, rfl⟩

/-- Whatever is queued or active, with every stop strategy and every timeout: `shutdown_all` returns
only when every task has ended. A failed signal of the forced stage ends the shutdown at once and
leaves every row as it is, so it leaves every task behind that has not ended by then; in a run in
which each of them fails only when every other task has ended, a shutdown that raises leaves at most
one task behind. -/
theorem shutdown_complete (run : Run (Step config) (.initial boot wall receipt) acts s) :
    (s.phase = .closing .returned → ∀ id, ¬ s.db.Pends id) ∧
    (∀ a t, a = .killRaise ∨ a = .confirm .killRaise → Step config s (.closing a) t →
      t.phase = .closing .raised ∧ t.db = s.db) ∧
    (Run (Guarded (Step config) Spared) (.initial boot wall receipt) acts s →
      s.phase = .closing .raised → ∀ a b, s.db.Pends a → s.db.Pends b → a = b) := by
  refine ⟨fun returned => ?_, fun a t failed stepped => ?_, fun guarded raised => ?_⟩
  · have winding := run.invariant
      (P := fun u => ∀ shutdown, u.phase = .closing shutdown → shutdown.Winds (fun _ => True) u.db)
      (fun winding stepped _ closing =>
        winds_step (fun _ => id) winding (.inl (fun _ => trivial)) stepped
        (fun _ _ => trivial) (fun _ => trivial) closing)
      (fun _ closing => by cases closing)
    exact winding _ returned
  · exact failed_signal failed stepped
  · have winding := guarded.invariant
      (P := fun u => u.db.Displays ∧ ∀ shutdown, u.phase = .closing shutdown →
        shutdown.Winds Db.Lone u.db)
      (fun {u act v} winding stepped => by
        obtain ⟨shown, closes⟩ := winding
        obtain ⟨moved, spared⟩ := stepped
        refine ⟨displays_step moved spared.shown shown, fun shutdown closing => ?_⟩
        refine winds_step (fun update lone a b first second => ?_) closes (.inr shown) moved
          (fun isAct failed => absurd failed (spared.scheduled isAct)) spared.lone_left closing
        exact lone a b (update.updates.pends first) (update.updates.pends second))
      ⟨displays_empty, fun _ closing => by cases closing⟩
    exact winding.2 _ raised

/-- Two watched tasks, and a shutdown without any patience up to its first SIGKILL. -/
def forcedPair : List Act :=
  firstStart ++ [.submit "a" (.keyed ["port"]), .submit "b" (.keyed ["disk"]), .tick "" none] ++
  ["a", "b"].flatMap (fun id => [.task id .startBegin, .task id .accept, .task id (.startReturn 0),
    .task id .waitBegin]) ++
  [.shutdown 0, .loopEnd, .closing .scheduler, .closing .drain, .task "a" (.stop .cancelDone),
    .task "b" (.stop .cancelDone), .closing .gathered]

/-- Both units end on their SIGKILL, and both ends are confirmed. -/
def confirmedPair : List Act :=
  forcedPair ++ [.closing .killed, .closing .killed, .task "a" (.exit (.code 137)),
    .task "b" (.exit (.code 137)), .clock "2026" 2, .closing (.confirm .wake),
      .closing (.confirm .query),
    .closing (.confirm .resume), .clock "2026" 4, .closing (.confirm .wake), .closing (.confirm .query),
    .closing (.confirm .resume)]

theorem shutdown_complete_pair : ∃ s,
    steps (.plain .systemd) (.initial "boot" "2026" .missing) confirmedPair = some s ∧
    s.phase = .closing .returned ∧ (s.db.tasks.rows.map TaskRecord.id) = ["a", "b"] ∧
    ∀ id, ¬ s.db.Pends id := by
  have ended : (steps (.plain .systemd) (.initial "boot" "2026" .missing) confirmedPair).any (fun s =>
      s.phase.hasReturned && (s.db.tasks.rows.map TaskRecord.id) = ["a", "b"]) = true := by
    decide +kernel
  obtain ⟨s, ran, facts⟩ := Option.any_eq_true _ _ |>.mp ended
  rw [Bool.and_eq_true] at facts
  obtain ⟨isReturned, rows⟩ := facts
  have returned : s.phase = .closing .returned := Phase.hasReturned_iff.mp isReturned
  exact ⟨s, ran, returned, of_decide_eq_true rows, (shutdown_complete (steps_run ran)).1 returned⟩

/-- The signal of the first task fails: the second is neither signalled nor confirmed. -/
theorem failed_signal_abandons : ∃ acts s row,
    Run (Step (.plain .systemd)) (.initial "boot" "2026" .missing) acts s ∧
    s.phase = .closing .raised ∧ s.db.Pends "a" ∧ s.db.getTask "b" = some row ∧ row.state = .stopping ∧
    row.interruptStage = some .requested := by
  have ended : (steps (.plain .systemd) (.initial "boot" "2026" .missing)
      (forcedPair ++ [.closing .killRaise])).any (fun s =>
      s.phase.hasRaised && (s.db.getTask "a").any (fun row => row.state.terminal = false) &&
        (s.db.getTask "b").any (fun row => row.state = .stopping &&
          row.interruptStage = some .requested)) = true := by
    decide +kernel
  obtain ⟨s, ran, facts⟩ := Option.any_eq_true _ _ |>.mp ended
  rw [Bool.and_eq_true, Bool.and_eq_true] at facts
  obtain ⟨⟨isRaised, pending⟩, left⟩ := facts
  obtain ⟨first, isFirst, unended⟩ := Option.any_eq_true _ _ |>.mp pending
  obtain ⟨row, found, facts⟩ := Option.any_eq_true _ _ |>.mp left
  rw [Bool.and_eq_true] at facts
  exact ⟨_, s, row, steps_run ran, Phase.hasRaised_iff.mp isRaised,
    ⟨first, isFirst, of_decide_eq_true unended⟩,
    found, of_decide_eq_true facts.1, of_decide_eq_true facts.2⟩

end Runs
end LocalFlow
