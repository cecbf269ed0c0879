import LocalFlow.Service.Completing
import LocalFlow.Service.Sound
import LocalFlow.Recovery

/-! What a start of the controller finds of a task: the rows its walk has still to visit, and nothing
that runs once the host has restarted. -/
namespace LocalFlow
variable {config : Config} {s t : System} {act : Act} {id : TaskId} {cell : Cell} {recovery : Recovery}

/-- Nothing of a launch is left: no process, no launch on its way, and no coroutine that looks after
one. -/
structure Vacant (cell : Cell) : Prop extends Over cell where
  waiter : cell.waiter = none

section Cells

theorem vacant_fresh : Vacant {} := ⟨over_fresh, rfl⟩

theorem Vacant.sequenced {other : Cell} (vacant : Vacant cell)
    (isOther : ∃ sequence, other = { cell with sequence }) : Vacant other := by
  obtain ⟨sequence, rfl⟩ := isOther
  exact ⟨vacant.toOver.congr rfl rfl, vacant.waiter⟩

theorem Vacant.unlink (vacant : Vacant cell) (backend : Backend) : Vacant (cell.unlink backend) :=
  ⟨vacant.toOver.unlink backend, vacant.waiter⟩

theorem Vacant.orphan (vacant : Vacant cell) (backend : Backend) :
    Vacant { tree := cell.tree.orphan backend } := by
  unfold Tree.orphan
  split
  · exact vacant_fresh
  · exact ⟨⟨⟨rfl, vacant.pending⟩, vacant.owns⟩, rfl⟩

/-- No process and no launch survives the host. -/
theorem vacant_reboot (tree : Tree) : Vacant { tree := tree.reboot } :=
  ⟨⟨⟨rfl, Tree.pending_reboot tree⟩, Tree.owns_reboot tree⟩, rfl⟩

/-- Nothing comes of a task of which nothing is left. -/
theorem Vacant.own {slot next : Slot} {moment : Moment} {a : TaskAct} (vacant : Vacant slot.cell)
    (stepped : slot.taskStep config moment id a = some next) : Vacant next.cell := by
  cases steps_taskStep stepped with
  | tree tree moved =>
    have owns := (treeStep_owns vacant.pending moved).1
    rw [vacant.owns] at owns
    cases owns
  | start started =>
    rw [vacant.starter] at started
    cases started
  | wait waited =>
    rw [vacant.waiter] at waited
    cases waited
  | stop sequence _ stopped => exact vacant.sequenced (stops_stopStep stopped).cell

/-- Something of a launch appears with the start of the task, or with its waiter when `recover` has
found the task running. -/
theorem Moved.vacant (moved : Moved config s act t id) (vacant : Vacant (s.cells.get id)) :
    Vacant (t.cells.get id) ∨
    (∃ row new, s.db.getTask id = some row ∧ row.state = .queued ∧
      t.db.getTask id = some new ∧ new.state = .starting) ∨
    ∃ recovery task completed, s.phase = .recovering recovery ∧
      recovery.point = .probing task completed (some true) ∧ task.id = id := by
  have keeps : ∀ {u : System}, Kept config s u id → Vacant (u.cells.get id) := by
    intro u kept
    cases kept with
    | same _ cell => exact cell ▸ vacant
    | ended _ _ cell =>
      obtain cell | cell := cell <;> rw [cell]
      · exact vacant
      · exact vacant.unlink _
  cases moved with
  | kept kept => exact .inl (keeps kept)
  | started _ row new stored queued found starting =>
    exact .inr (.inl ⟨row, new, stored, queued, found, starting⟩)
  | enrolled row _ _ _ _ cell | settled _ _ _ _ _ _ _ _ _ cell => exact .inl (cell ▸ vacant)
  | own a next _ stepped view =>
    have cell : t.cells.get id = next.cell := congrArg View.cell view
    exact .inl (cell ▸ Vacant.own vacant stepped)
  | asked sigint sigterm _ view =>
    obtain ⟨sequence, isCell⟩ :=
      (interrupts_interrupt (s.moment id) id (s.slot id) sigint sigterm).cell
    exact .inl (vacant.sequenced ⟨sequence, (congrArg View.cell view).trans isCell⟩)
  | crashed middle kept _ tree isTree cell =>
    left
    rw [cell]
    obtain rfl | rfl := isTree
    · exact (keeps kept).orphan _
    · exact vacant_reboot _
  | watched recovery task completed phase point named =>
    exact .inr (.inr ⟨recovery, task, completed, phase, point, named⟩)
  | closed _ _ chain => exact .inl (vacant.sequenced (closes_cell chain))
  | confirmed _ _ _ _ result _ _ stepped view =>
    have cell : t.cells.get id = result.1.cell := congrArg View.cell view
    rw [cell, cell_confirmStep stepped]
    exact .inl vacant

theorem reboot_vacant (boot : String) : Vacant ((s.reboot config boot).cells.get id) := by
  rw [get_reboot]
  exact vacant_reboot _

end Cells

section Walk
variable {after : Recovery} {old new : TaskRecord}

/-- `recover` has ended a task and goes on: the task is no longer active, and no other row has
changed. -/
theorem settled_rows {middle : System} {around : Recovery} {target : TaskId} {state : TaskState}
    {fields : List Field} {override : Option TaskStatus} {extra : Option String}
    (ended : state.terminal = true)
    (phase : (middle.settleRecovered config around target state fields override extra).phase =
      .recovering after) :
    after = { around with point := .next } ∧
    Done ((middle.settleRecovered config around target state fields override extra).db.getTask target) ∧
    ∀ other, other ≠ target →
      (middle.settleRecovered config around target state fields override extra).db.getTask other =
        middle.db.getTask other := by
  have noted : ∀ db : Db,
    (extra.elim db (fun kind => db.addEvent middle.wall (some target) kind)).getTask
      = db.getTask := by
    intro db
    cases extra <;> rfl
  obtain ⟨raised, _⟩ | ⟨refused, unexpected⟩ | ⟨row, status, found, _, moved⟩ :=
    middle.db.transition_cases middle.wall target liveStates state fields override
  · unfold System.settleRecovered at phase
    rw [raised] at phase
    cases phase
  · unfold System.settleRecovered at phase ⊢
    rw [refused] at phase ⊢
    dsimp only at phase ⊢
    rw [noted]
    refine ⟨(Phase.recovering.inj phase).symm, fun r found => ?_, fun _ _ => rfl⟩
    cases live : r.state.active with
    | false => rfl
    | true => exact absurd (mem_liveStates.mpr live) (unexpected r found)
  · unfold System.settleRecovered at phase ⊢
    rw [moved] at phase ⊢
    dsimp only at phase ⊢
    rw [noted]
    refine ⟨(Phase.recovering.inj phase).symm, ?_, fun other apart => ?_⟩
    · rw [Db.getTask_move, if_pos rfl, found]
      exact done_terminal rfl ended
    · rw [Db.getTask_move, if_neg apart]

/-- While the walk goes on, an active task waits for its turn until it has been found running. -/
theorem recoverStep_awaits {a : RecoverAct} (stepped : s.recoverStep config recovery a = some t)
    (phase : t.phase = .recovering after) (stored : s.db.getTask id = some old)
    (found : t.db.getTask id = some new) (active : new.state.active = true)
    (awaits : recovery.Awaits old) :
    after.Awaits new ∨ ∃ task completed, recovery.point = .probing task completed (some true) ∧
      task.id = id := by
  have named := (Tasks.get?_mem stored).2
  have same : t.db.getTask id = s.db.getTask id → new = old := by
    intro row
    rw [found, stored] at row
    exact Option.some.inj row
  -- the task `recover` has just ended is not active any more, and the others wait as before
  have settled : ∀ {middle : System} {around : Recovery} {target : TaskId} {state : TaskState}
      {fields : List Field} {override : Option TaskStatus} {extra : Option String},
      middle.db.getTask = s.db.getTask → state.terminal = true →
      t = middle.settleRecovered config around target state fields override extra →
      (old.id ≠ target → Recovery.Awaits { around with point := .next } old) → after.Awaits new := by
    intro middle around target state fields override extra rows ended isT waits
    rw [isT] at phase found same
    obtain ⟨rfl, done, others⟩ := settled_rows ended phase
    by_cases here : id = target
    · subst here
      have idle := done new found
      rw [active] at idle
      cases idle
    · rw [same ((others id here).trans (congrFun rows id))]
      exact waits (named ▸ here)
  unfold System.recoverStep at stepped
  split at stepped
  · rename_i point
    unfold System.recoverNext at stepped
    split at stepped
    · rename_i todo
      obtain ⟨key, tail, rfl⟩ := Option.map_eq_some_iff.mp stepped
      cases phase
      rw [same rfl] at active ⊢
      exact .inl (awaits.page point todo tail stored active)
    · rename_i task rest todo
      dsimp only at stepped
      split at stepped
      · cases stepped
        exact .inl (settled rfl rfl rfl (fun apart => awaits.rest point todo apart .next))
      · split at stepped <;> cases stepped
        · cases phase
        · cases phase
          rw [same rfl]
          left
          by_cases here : old.id = task.id
          · exact .current task rfl here.symm
          · exact awaits.rest point todo here _
  · rename_i task completed point
    cases stepped
    cases phase
    rw [same rfl]
    refine .inl (awaits.moved (fun other isTask _ => ?_))
    rw [point] at isTask
    exact isTask
  · cases stepped
    cases phase
  · rename_i task completed running point
    cases stepped
    have passed : old.id ≠ task.id → Recovery.Awaits { recovery with point := .next } old := by
      refine fun apart => awaits.moved (fun other isTask isNamed => ?_)
      rw [point] at isTask
      cases isTask
      exact absurd isNamed.symm apart
    cases running with
    | true =>
      by_cases here : task.id = id
      · exact .inr ⟨task, completed, point, here⟩
      · left
        have resumed : s.recoverResume config recovery task completed true = { s.put task.id
            (if task.interruptStage.isSome then
              ((s.slot task.id).withWaiter (some .created)).startInterrupt
              System.recoveryGrace.1 System.recoveryGrace.2
            else (s.slot task.id).withWaiter (some .created)) with
            phase := .recovering { recovery with point := .next } } := by
          cases completed <;> rfl
        rw [resumed] at phase same
        cases phase
        have row : new = old := same (by dsimp only [System.put]; split <;> rfl)
        rw [row]
        exact passed (fun isNamed => here (isNamed.symm.trans named))
    | false =>
      left
      cases completed with
      | some code =>
        cases phase
        rw [same rfl]
        refine awaits.moved (fun other isTask _ => ?_)
        rw [point] at isTask
        exact isTask
      | none =>
        unfold System.recoverResume at settled
        dsimp only at settled
        split at settled
        · exact settled rfl rfl rfl passed
        · exact settled rfl rfl rfl passed
  · rename_i task code evaluation point
    cases stepped
    unfold System.recoverEvaluated at phase found same settled
    generalize isVerdict : evaluateResult config.hasEvaluator task code evaluation =
      verdict at phase found same settled
    cases isCustom : verdict.custom with
    | none =>
      rw [isCustom] at phase
      cases phase
    | some custom =>
      rw [isCustom] at settled
      refine .inl (settled ?_ (resultState_terminal task code) rfl (fun apart => awaits.moved ?_))
      · split <;> rfl
      · intro other isTask isNamed
        rw [point] at isTask
        cases isTask
        exact absurd isNamed.symm apart
  · split at stepped <;> cases stepped
    unfold System.recoverFinish at phase
    split at phase
    · cases phase
    · dsimp only at phase
      split at phase <;> cases phase
  · cases stepped

end Walk

section Reasons
variable {old : TaskRecord}

/-- How often the end of a task was put down to a restart of the host. -/
def Db.restarts (db : Db) (id : TaskId) : Nat := (db.events.kindsOf id).count "task.host_restarted"

/-- A step moves a task to lost because the host has restarted. -/
structure LostToRestart (s t : System) (id : TaskId) : Prop where
  lost : ∃ new, t.db.getTask id = some new ∧ new.state = .lost
  restarted : t.db.restarts id = s.db.restarts id + 1

theorem restarts_addEvent (db : Db) (now : String) (kind : String) :
    (db.addEvent now (some id) kind).restarts id =
      db.restarts id + if kind = "task.host_restarted" then 1 else 0 := by
  unfold Db.restarts Db.addEvent
  rw [Events.kindsOf_append, if_pos rfl, List.count_append, List.count_singleton]
  simp only [beq_iff_eq]

theorem restarts_move (db : Db) (now : String) (state : TaskState) (fields : List Field)
    (status : TaskStatus) : (db.move now id state fields status).restarts id = db.restarts id := by
  have other : lifecycleKind state ≠ "task.host_restarted" := by cases state <;> decide
  unfold Db.move
  rw [restarts_addEvent, if_neg other]
  rfl

/-- The end of a task by `recover` is put down to a restart only where the code says so. -/
theorem settled_restarts {middle : System} {around : Recovery} {target : TaskId} {state : TaskState}
    {fields : List Field} {override : Option TaskStatus} {extra : Option String}
    (found : middle.db.getTask target = some old) (active : old.state.active = true)
    (done : Done ((middle.settleRecovered config around target state fields override
      extra).db.getTask target)) :
    (∃ new, (middle.settleRecovered config around target state fields override extra).db.getTask
      target =
      some new ∧ new.state = state) ∧
    (middle.settleRecovered config around target state fields override extra).db.restarts target =
      middle.db.restarts target + if extra = some "task.host_restarted" then 1 else 0 := by
  obtain ⟨raised, _⟩ | ⟨_, unexpected⟩ | ⟨row, status, _, _, moved⟩ :=
    middle.db.transition_cases middle.wall target liveStates state fields override
  · unfold System.settleRecovered at done
    rw [raised] at done
    have idle := done old found
    rw [active] at idle
    cases idle
  · exact absurd (mem_liveStates.mpr active) (unexpected old found)
  · unfold System.settleRecovered
    rw [moved]
    have written : (middle.db.move middle.wall target state fields status).getTask target =
        some (old.moved state fields status) := by
      rw [Db.getTask_move, if_pos rfl, found, Option.map_some]
    cases extra with
    | none => exact ⟨⟨_, written, rfl⟩, restarts_move _ _ _ _ _⟩
    | some kind =>
      refine ⟨⟨_, written, rfl⟩, ?_⟩
      dsimp only [Option.elim]
      rw [restarts_addEvent, restarts_move]
      simp only [Option.some.injEq]

/-- `recover` ends an active task in one of two ways: because the host has restarted, or because of
what it has found of the task. -/
theorem recoverStep_ends {a : RecoverAct}
    (unfinished : ∀ fails cutoff faults, a ≠ .finish fails cutoff faults)
    (stepped : s.recoverStep config recovery a = some t)
    (stored : s.db.getTask id = some old) (active : old.state.active = true)
    (done : Done (t.db.getTask id)) :
    (recovery.hostRestarted = true ∧ LostToRestart s t id) ∨
    ((recovery.point = .next → recovery.hostRestarted = false) ∧ ¬ LostToRestart s t id) := by
  have stays : t.db.getTask id ≠ s.db.getTask id := by
    intro same
    have idle := done old (same.trans stored)
    rw [active] at idle
    cases idle
  -- an end that is put down to something else
  have otherwise : ∀ {middle : System} {around : Recovery} {target : TaskId} {state : TaskState}
      {fields : List Field} {override : Option TaskStatus},
      middle.db.getTask = s.db.getTask → middle.db.restarts target = s.db.restarts target →
      t = middle.settleRecovered config around target state fields override →
      ¬ LostToRestart s t id := by
    intro middle around target state fields override rows before isT lost
    have settled := @settleRecovered_row config middle around target state fields override none id
    rw [← isT] at settled
    obtain ⟨same, _⟩ | ⟨rfl, _⟩ := settled
    · exact stays (same.trans (congrFun rows id))
    · rw [isT] at done lost
      have reason := (settled_restarts ((congrFun rows id).trans stored) active done).2
      rw [before] at reason
      have grown := lost.restarted
      rw [reason] at grown
      simp at grown
  unfold System.recoverStep at stepped
  split at stepped
  · unfold System.recoverNext at stepped
    split at stepped
    · obtain ⟨key, _, rfl⟩ := Option.map_eq_some_iff.mp stepped
      exact absurd rfl stays
    · rename_i task rest todo
      dsimp only at stepped
      split at stepped
      · rename_i restarted
        cases stepped
        refine .inl ⟨restarted, ?_⟩
        have settled := @settleRecovered_row config s { recovery with todo := rest } task.id .lost
          [.endedAt s.wall, .elapsedSeconds none] none (some "task.host_restarted") id
        obtain ⟨same, _⟩ | ⟨rfl, _⟩ := settled
        · exact absurd same stays
        · exact ⟨(settled_restarts stored active done).1, (settled_restarts stored active done).2⟩
      · split at stepped <;> cases stepped <;> exact absurd rfl stays
  · cases stepped
    exact absurd rfl stays
  · cases stepped
    exact absurd rfl stays
  · rename_i task completed running point
    right
    refine ⟨fun impossible => ?_, ?_⟩
    · rw [point] at impossible
      cases impossible
    cases stepped
    cases running with
    | true =>
      refine absurd ?_ stays
      cases completed <;> (unfold System.recoverResume; dsimp only; split <;> rfl)
    | false =>
      cases completed with
      | some code => exact absurd rfl stays
      | none =>
        unfold System.recoverResume at otherwise ⊢
        dsimp only at otherwise ⊢
        split at otherwise
        · rename_i stage
          rw [if_pos stage]
          exact otherwise rfl rfl rfl
        · rename_i stage
          rw [if_neg stage]
          exact otherwise rfl rfl rfl
  · rename_i task code evaluation point
    right
    refine ⟨fun impossible => ?_, ?_⟩
    · rw [point] at impossible
      cases impossible
    cases stepped
    unfold System.recoverEvaluated at stays otherwise ⊢
    generalize evaluateResult config.hasEvaluator task code evaluation = verdict at stays otherwise ⊢
    cases isCustom : verdict.custom with
    | none =>
      refine absurd ?_ stays
      rw [isCustom]
      dsimp only
      split <;> rfl
    | some custom =>
      rw [isCustom] at otherwise
      refine otherwise ?_ ?_ rfl
      · split <;> rfl
      · split
        · exact restarts_addEvent _ _ _
        · rfl
  · exact absurd rfl (unfinished _ _ _)
  · cases stepped

end Reasons
end LocalFlow
