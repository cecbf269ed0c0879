import LocalFlow.Service.Recovering

/-! A recovery whose probes all answer walks to its end and leaves no task behind: every task that
was active has ended or is watched again. -/
namespace LocalFlow
open Transition
variable {config : Config} {s t : System} {act : Act} {id : TaskId} {recovery : Recovery}

/-- The task has ended, or a waiter is registered for it. -/
def System.Attended (s : System) (id : TaskId) : Prop :=
  ∃ row, s.db.getTask id = some row ∧
    (row.state.terminal = true ∨ (s.cells.get id).waiter.isSome = true)

/-- The exit record of the next task of the walk is missing or whole, or is not read at all. -/
def System.recordWhole (config : Config) (s : System) : Bool :=
  match s.phase with
  | .recovering recovery => recovery.hostRestarted || recovery.todo.head?.all (fun task =>
      (completedCode config.backend (s.cells.get task.id).tree).isSome)
  | _ => true

/-- No probe of a recovery raises: the exit records it reads are whole, the questions to the executor
are answered and the evaluated results can be encoded. The controller and the host live on. -/
structure Undisturbed (config : Config) (s : System) (act : Act) : Prop where
  survives : act.survives = true
  answered : act ≠ .recover .queryRaise
  readable : act = .recover .next → s.recordWhole config = true
  encodes : ∀ evaluation, (act = .recover (.evaluated evaluation) ∨
    ∃ id, act = .task id (.waitEvaluated evaluation)) → evaluation.Encodable
  unfinished : ∀ fails cutoff faults, act ≠ .recover (.finish fails cutoff faults)

section Steps

/-- A started task is attended, or its turn in the walk has still to come. -/
def Covered (s : System) (recovery : Recovery) (id : TaskId) : Prop :=
  ∃ row, s.db.getTask id = some row ∧ row.state ≠ .queued ∧
    (row.state.active = true → (s.cells.get id).waiter.isSome = true ∨ recovery.Awaits row)

theorem Covered.attended (covered : Covered s recovery id) (passed : recovery.Over) :
    s.Attended id := by
  obtain ⟨row, found, started, active⟩ := covered
  refine ⟨row, found, ?_⟩
  obtain queued | live | ended := row.state.active_or
  · exact absurd queued started
  · exact .inr ((active live).resolve_right (passed.awaits row))
  · exact .inl ended

/-- An update of one task keeps every row, its place and that its task has been started. -/
theorem UpdateOf.row {target : TaskId} {db next : Db} (update : UpdateOf target db next)
    {row : TaskRecord} (found : db.getTask id = some row) (started : row.state ≠ .queued) :
    ∃ new, next.getTask id = some new ∧ new.state ≠ .queued ∧ new.sortKey = row.sortKey ∧
      new.id = row.id ∧
      (new.state.active = true → row.state.active = true) := by
  have stored : (next.getTask id).isSome = true := by
    by_cases here : id = target
    · subst here
      rw [update.stored, found]
      rfl
    · rw [update.frame id here, found]
      rfl
  obtain ⟨new, isNew⟩ := Option.isSome_iff_exists.mp stored
  obtain ⟨old, isOld, follows⟩ := update.updates.follows isNew
  rw [found] at isOld
  cases isOld
  refine ⟨new, isNew, follows.started started, update.updates.sortKey found isNew, ?_, fun active => ?_⟩
  · exact (Tasks.get?_mem isNew).2.trans (Tasks.get?_mem found).2.symm
  · obtain queued | live | ended := row.state.active_or
    · exact absurd queued started
    · exact live
    · rw [follows.terminal ended] at active
      rw [TaskState.active_not_terminal active] at ended
      cases ended

theorem Recovery.Awaits.congr {row new : TaskRecord} (awaits : recovery.Awaits row)
    (key : new.sortKey = row.sortKey) (named : new.id = row.id) : recovery.Awaits new := by
  cases awaits with
  | current task point same => exact .current task point (same.trans named.symm)
  | listed task member same => exact .listed task member (same.trans named.symm)
  | later k tail beyond => exact .later k tail (key ▸ beyond)

/-- What waited for its turn still waits, unless its turn is over. -/
theorem Recovery.Awaits.moved {row : TaskRecord} {point : RecoveryPoint} (awaits : recovery.Awaits row)
    (held : ∀ task, recovery.point.task = some task → task.id = row.id → point.task = some task) :
    Recovery.Awaits { recovery with point } row := by
  cases awaits with
  | current task isTask named => exact .current task (held task isTask named) named
  | listed task member named => exact .listed task member named
  | later key tail beyond => exact .later key tail beyond

/-- A page is over: what lay beyond it is on the next one, or beyond that. -/
theorem Recovery.Awaits.page {row : TaskRecord} {key : SortKey} (awaits : recovery.Awaits row)
    (point : recovery.point = .next) (todo : recovery.todo = []) (tail : recovery.tail = some key)
    (found : s.db.getTask id = some row) (active : row.state.active = true) : Recovery.Awaits
      { recovery with todo := (s.ownedPage (some key)).1, tail := (s.ownedPage (some key)).2 } row := by
  cases awaits with
  | current task isTask =>
    rw [point] at isTask
    cases isTask
  | listed task member =>
    rw [todo] at member
    cases member
  | later other same beyond =>
    rw [tail] at same
    cases same
    have after : Keyset.After TaskRecord.sortKey (some key) row := beyond
    obtain listed | ⟨last, isLast, later⟩ := ownedPage_listed found active after
    · exact .listed row listed rfl
    · exact .later last isLast later

/-- The next task of a page is taken up; the others wait on. -/
theorem Recovery.Awaits.rest {row task : TaskRecord} {rest : List TaskRecord}
    (awaits : recovery.Awaits row)
    (point : recovery.point = .next) (todo : recovery.todo = task :: rest) (apart : row.id ≠ task.id)
    (reached : RecoveryPoint) :
    Recovery.Awaits { recovery with todo := rest, point := reached } row := by
  cases awaits with
  | current other isTask =>
    rw [point] at isTask
    cases isTask
  | listed other member named =>
    rw [todo] at member
    obtain rfl | later := List.mem_cons.mp member
    · exact absurd named.symm apart
    · exact .listed other later named
  | later key tail beyond => exact .later key tail beyond

/-- One step of a recovery: it stays on its way, and comes closer to its end when the step was its
own. -/
structure Onward (s : System) (recovery : Recovery) (act : Act) (t : System) (after : Recovery) :
    Prop where
  phase : t.phase = .recovering after
  updates : Updates s.db t.db
  covers : ∀ id, Covered s recovery id → Covered t after id
  rank : t.db.walkRank after ≤ s.db.walkRank recovery
  lower : ∀ a, act = .recover a → t.db.walkRank after < s.db.walkRank recovery

/-- Nothing but the place in the walk changes. -/
theorem onward_walk {after : Recovery}
    (lower : s.db.walkRank after < s.db.walkRank recovery)
    (awaits : ∀ id row, s.db.getTask id = some row → row.state.active = true → recovery.Awaits row →
      after.Awaits row) :
    Onward s recovery act { s with phase := .recovering after } after where
  phase := rfl
  updates := .refl
  covers := by
    rintro id ⟨row, found, started, active⟩
    exact ⟨row, found, started, fun live => (active live).imp_right (awaits id row found live)⟩
  rank := lower.le
  lower _ _ := lower

/-- One task is decided; the rest of the walk is as it was. -/
theorem onward_decided (target : TaskId) {after : Recovery} (phase : t.phase = .recovering after)
    (update : UpdateOf target s.db t.db) (lower : s.db.walkRank after < s.db.walkRank recovery)
    (others : ∀ id, id ≠ target → t.cells.get id = s.cells.get id)
    (decided : (t.cells.get target).waiter.isSome = true ∨
      t.cells.get target = s.cells.get target ∧ Done (t.db.getTask target))
    (awaits : ∀ row, row.id ≠ target → recovery.Awaits row → after.Awaits row) :
    Onward s recovery act t after where
  phase := phase
  updates := update.updates
  covers := by
    rintro id ⟨row, found, started, active⟩
    obtain ⟨new, isNew, newStarted, key, named, live⟩ := update.row found started
    refine ⟨new, isNew, newStarted, fun newActive => ?_⟩
    by_cases here : id = target
    · subst here
      obtain watched | ⟨_, done⟩ := decided
      · exact .inl watched
      · have passed := done new isNew
        rw [newActive] at passed
        cases passed
    · rw [others id here]
      refine (active (live newActive)).imp_right (fun waits => ?_)
      have apart : row.id ≠ target := (Tasks.get?_mem found).2 ▸ here
      exact (awaits row apart waits).congr key named
  rank := (walkRank_updates update.updates after).trans lower.le
  lower _ _ := (walkRank_updates update.updates after).trans_lt lower

/-- `recover` ends a task whose row can be shown. -/
theorem onward_settled {middle : System} {target : TaskId} {state : TaskState} {fields : List Field}
    {around after : Recovery} {override : Option TaskStatus} {extra : Option String}
    (shown : s.db.Displays) (before : UpdateOf target s.db middle.db)
    (rows : middle.db.getTask = s.db.getTask)
    (cells : middle.cells = s.cells) (ended : state.terminal = true)
    (stamp : Field.endedAt middle.wall ∈ fields)
    (unreferenced : ∀ reference, Field.executorRef reference ∉ fields)
    (quiet : ∀ kind, extra = some kind → isLifecycle kind = false)
    (isAfter : after = { around with point := .next })
    (lower : s.db.walkRank after < s.db.walkRank recovery)
    (awaits : ∀ row, row.id ≠ target → recovery.Awaits row → after.Awaits row) :
    Onward s recovery act
      (middle.settleRecovered config around target state fields override extra) after := by
  have moved := update_end middle.db target liveStates override (live_may_end ended) ended stamp
    unreferenced
  have done : Done ((middle.db.transition middle.wall target liveStates state fields override).1.getTask
      target) := by
    refine (transition_writes middle.db middle.wall target liveStates state fields override).done
      (fun r found => shown target r ?_) (fun _ active => mem_liveStates.mpr active) ended
    rw [← rows]
    exact found
  obtain ⟨_, row, found, hidden⟩ | ⟨refused, _⟩ | ⟨_, _, _, _, committed⟩ :=
    middle.db.transition_cases middle.wall target liveStates state fields override
  · rw [rows] at found
    exact absurd (shown target row found) hidden
  all_goals
    unfold System.settleRecovered
    first | rw [refused] at moved done ⊢ | rw [committed] at moved done ⊢
    refine onward_decided target ?_ ?_ lower (fun id _ => ?_) (.inr ⟨?_, ?_⟩) awaits
    · rw [isAfter]
    · refine before.trans (moved.trans ?_)
      cases extra with
      | none => exact .refl _
      | some kind => exact update_event (quiet kind rfl)
    · exact congrArg (fun cells => cells.get id) cells
    · exact congrArg (fun cells => cells.get target) cells
    · cases extra <;> exact done

theorem onward_next (shown : s.db.Displays) (undisturbed : Undisturbed config s (.recover .next))
    (phase : s.phase = .recovering recovery) (point : recovery.point = .next)
    (stepped : s.recoverNext config recovery = some t) :
    ∃ after, Onward s recovery act t after := by
  unfold System.recoverNext at stepped
  split at stepped
  · rename_i todo
    obtain ⟨key, tail, rfl⟩ := Option.map_eq_some_iff.mp stepped
    refine ⟨_, onward_walk ?_ (fun id row found active waits =>
      waits.page point todo tail found active)⟩
    rw [Db.walkRank, Db.walkRank, Prod.Lex.lt_iff, tail]
    exact .inl (beyond_page key)
  · rename_i task rest todo
    dsimp only at stepped
    split at stepped
    · cases stepped
      exact ⟨{ recovery with todo := rest, point := .next }, onward_settled shown (.refl _) rfl rfl rfl
        (by simp) (by simp) (by rintro _ ⟨⟩; rfl) rfl (walkRank_todo s.db todo rfl)
        (fun row apart waits => waits.rest point todo apart .next)⟩
    · rename_i restarted
      split at stepped
      · rename_i unreadable
        have whole := undisturbed.readable rfl
        simp only [System.recordWhole, phase, todo, restarted, Bool.false_or, List.head?_cons,
          Option.all_some, unreadable, Option.isSome_none, Bool.false_eq_true] at whole
      · rename_i completed _
        cases stepped
        refine ⟨{ recovery with todo := rest, point := .probing task completed none },
          onward_walk (walkRank_todo s.db todo rfl) (fun id row found active before => ?_)⟩
        by_cases here : row.id = task.id
        · exact .current task rfl here.symm
        · exact before.rest point todo here _

theorem onward_resume (shown : s.db.Displays) {task : TaskRecord} {completed : Option Int}
    {running : Bool}
    (point : recovery.point = .probing task completed (some running)) :
    ∃ after, Onward s recovery act (s.recoverResume config recovery task completed running) after := by
  have lower : ∀ {after : RecoveryPoint}, after.rank < 2 →
      s.db.walkRank { recovery with point := after } < s.db.walkRank recovery := by
    intro after below
    refine walkRank_point s.db ?_
    rw [point]
    exact below
  have turn : ∀ other, recovery.point.task = some other → other = task := by
    intro other same
    rw [point] at same
    exact (Option.some.inj same).symm
  have passed : ∀ row, row.id ≠ task.id → recovery.Awaits row →
      Recovery.Awaits { recovery with point := .next } row := by
    intro row apart waits
    refine waits.moved (fun other isTask named => ?_)
    rw [turn other isTask] at named
    exact absurd named.symm apart
  unfold System.recoverResume
  split
  · refine ⟨_, onward_walk (lower Nat.one_lt_two) (fun id row _ _ waits => waits.moved ?_)⟩
    rintro other isTask _
    rw [turn other isTask]
    rfl
  · refine ⟨{ recovery with point := .next }, onward_decided task.id rfl ?_ (lower Nat.zero_lt_two)
      (fun id apart => ?_) (.inl ?_) passed⟩
    · dsimp only
      split <;> exact .refl _
    · dsimp only [System.put]
      rw [Dict.get_set, if_neg apart]
    · dsimp only [System.put]
      rw [Dict.get_set, if_pos rfl]
      split <;> rfl
  · split
    · exact ⟨_, onward_settled shown (.refl _) rfl rfl rfl (by simp) (by simp) (by simp) rfl
        (lower Nat.zero_lt_two) passed⟩
    · exact ⟨_, onward_settled shown (.refl _) rfl rfl rfl (by simp) (by simp) (by simp) rfl
        (lower Nat.zero_lt_two) passed⟩

theorem onward_evaluated (shown : s.db.Displays) {task : TaskRecord} {code : Int} {verdict : Verdict}
    {custom : Object} (point : recovery.point = .evaluating task code)
    (encoded : verdict.custom = some custom) :
    ∃ after, Onward s recovery act (s.recoverEvaluated config recovery task code verdict) after := by
  unfold System.recoverEvaluated
  rw [encoded]
  generalize isNoted : (if verdict.failed = true then _ else s : System) = noted
  have update : UpdateOf task.id s.db noted.db := by
    rw [← isNoted]
    split
    · exact update_event rfl
    · exact .refl _
  have rows : noted.db.getTask = s.db.getTask := by
    rw [← isNoted]
    split <;> rfl
  have cells : noted.cells = s.cells := by
    rw [← isNoted]
    split <;> rfl
  have wall : noted.wall = s.wall := by
    rw [← isNoted]
    split <;> rfl
  refine ⟨{ recovery with point := .next }, onward_settled shown update rows cells
    (resultState_terminal task code) (by simp [wall]) (by simp) (by simp) rfl
    (walkRank_point s.db ?_) (fun row apart waits => waits.moved ?_)⟩
  · rw [point]
    exact Nat.zero_lt_one
  · rintro other isTask named
    rw [point] at isTask
    cases isTask
    exact absurd named.symm apart

theorem onward_recover (shown : s.db.Displays) {a : RecoverAct}
    (undisturbed : Undisturbed config s (.recover a))
    (phase : s.phase = .recovering recovery) (stepped : s.recoverStep config recovery a = some t) :
    ∃ after, Onward s recovery (.recover a) t after := by
  unfold System.recoverStep at stepped
  split at stepped
  · rename_i point
    exact onward_next shown undisturbed phase point stepped
  · rename_i task completed point
    cases stepped
    refine ⟨_, onward_walk (walkRank_point s.db ?_) (fun id row _ _ waits => waits.moved ?_)⟩
    · rw [point]
      exact Nat.lt_succ_self _
    · rintro other isTask _
      rw [point] at isTask
      exact isTask
  · exact absurd rfl undisturbed.answered
  · rename_i point
    cases stepped
    exact onward_resume shown point
  · rename_i task code evaluation point
    cases stepped
    obtain ⟨custom, encoded⟩ :=
      (undisturbed.encodes evaluation (.inl rfl)).custom config.hasEvaluator task code
    exact onward_evaluated shown point encoded
  · rename_i fails cutoff faults _
    exact absurd rfl (undisturbed.unfinished fails cutoff faults)
  · cases stepped

/-- A step of a coroutine of one task takes its waiter away only with its end. -/
theorem onward_task (shown : s.db.Displays) {target : TaskId} {a : TaskAct} {slot : Slot}
    (undisturbed : Undisturbed config s (.task target a)) (phase : s.phase = .recovering recovery)
    (stepped : (s.slot target).taskStep config (s.moment target) target a = some slot) :
    Onward s recovery (.task target a) (s.put target slot) recovery := by
  have update := update_taskStep (s.slot target) stepped
  refine ⟨phase, update.updates, ?_, walkRank_updates update.updates recovery, by simp⟩
  rintro id ⟨row, found, started, active⟩
  obtain ⟨new, isNew, newStarted, key, named, live⟩ := update.row found started
  refine ⟨new, isNew, newStarted, fun newActive => ?_⟩
  obtain watched | waits := active (live newActive)
  · left
    by_cases here : id = target
    · subst here
      simp only [System.put, Dict.get_set, if_true]
      refine (taskStep_kept stepped (fun evaluation same => ?_) (shown id) watched).resolve_right
        (fun done => ?_)
      · exact undisturbed.encodes evaluation (.inr ⟨id, by rw [same]⟩)
      · have passed := done new isNew
        rw [newActive] at passed
        cases passed
    · simp only [System.put, Dict.get_set, if_neg here]
      exact watched
  · exact .inr (waits.congr key named)

theorem onward_step (shown : s.db.Displays) (phase : s.phase = .recovering recovery)
    (undisturbed : Undisturbed config s act) (stepped : Step config s act t) :
    ∃ after, Onward s recovery act t after := by
  obtain ⟨target, a, slot, rfl, moved, rfl⟩ | ⟨notRecover, _, db, cells, phase', _⟩ | ⟨a, rfl, moved⟩ :=
    recovering_step phase undisturbed.survives stepped
  · exact ⟨recovery, onward_task shown undisturbed phase moved⟩
  · refine ⟨recovery, phase', by rw [db], ?_, by rw [db], fun a same => absurd same (notRecover a)⟩
    intro id covered
    unfold Covered
    rw [db, cells]
    exact covered
  · exact onward_recover shown undisturbed phase moved

end Steps

section Runs
variable {acts : List Act} {readable : Bool} {middle : System}

/-- Before the end of the walk `recover` can always go on. -/
theorem recover_enabled (phase : s.phase = .recovering recovery) (unfinished : ¬ recovery.Over) :
    ∃ a u, Step config s (.recover a) u := by
  have goes : ∀ a u, s.recoverStep config recovery a = some u → Step config s (.recover a) u := by
    intro a u stepped
    unfold Step step
    rw [phase]
    exact stepped
  cases point : recovery.point with
  | next =>
    cases todo : recovery.todo with
    | nil =>
      cases tail : recovery.tail with
      | none => exact absurd ⟨point, todo, tail⟩ unfinished
      | some key => exact ⟨.next, _, goes _ _ (by simp only [System.recoverStep, point,
          System.recoverNext, todo, tail, Option.map_some]; rfl)⟩
    | cons task rest =>
      have some : ∃ u, s.recoverNext config recovery = some u := by
        unfold System.recoverNext
        rw [todo]
        dsimp only
        split
        · exact ⟨_, rfl⟩
        · split <;> exact ⟨_, rfl⟩
      obtain ⟨u, stepped⟩ := some
      exact ⟨.next, u, goes _ _ (by simp only [System.recoverStep, point, stepped])⟩
  | probing task completed answer =>
    cases answer with
    | none => exact ⟨.query, _, goes _ _ (by simp only [System.recoverStep, point]; rfl)⟩
    | some running => exact ⟨.resume, _, goes _ _ (by simp only [System.recoverStep, point]; rfl)⟩
  | evaluating task code =>
    exact ⟨.evaluated .nothing, _, goes _ _ (by simp only [System.recoverStep, point]; rfl)⟩

/-- What holds all along an unbroken recovery that began in a state. -/
def Recovers (s t : System) : Prop :=
  t.db.Displays ∧ ∃ recovery, t.phase = .recovering recovery ∧
    ∀ id row, s.db.getTask id = some row → row.state.active = true → Covered t recovery id

theorem recovers_begin (displays : s.db.Displays)
    (begun : Step config s (.recoverBegin readable) middle) :
    Recovers s middle := by
  obtain ⟨_, rfl⟩ := recoverBegin_step begun
  refine ⟨displays, _, rfl, fun id row found active => ⟨row, found, ?_, fun _ => .inr ?_⟩⟩
  · intro queued
    rw [queued] at active
    cases active
  · exact awaits_begin found active _ _

theorem Recovers.step (recovers : Recovers s t) {u : System} (undisturbed : Undisturbed config t act)
    (stepped : Step config t act u) : Recovers s u := by
  obtain ⟨displays, recovery, phase, covered⟩ := recovers
  obtain ⟨after, onward⟩ := onward_step displays phase undisturbed stepped
  refine ⟨onward.updates.displays (fun _ impossible => absurd impossible not_false) displays, after,
    onward.phase, fun id row found active => onward.covers id (covered id row found active)⟩

/-- The walk of an unbroken recovery, resumed again and again, comes to its end. -/
theorem recovers_ends (e : Execution (Guarded (Step config) (Undisturbed config)))
    (begun : Recovers s (e.state 0))
    (fair : ∀ n recovery, (e.state n).phase = .recovering recovery → ¬ recovery.Over →
      ∃ m, n ≤ m ∧ ∃ a, e.label m = .recover a) :
    ∃ n recovery, (e.state n).phase = .recovering recovery ∧ recovery.Over := by
  let rank : System → ℕ ×ₗ ℕ ×ₗ ℕ := fun t => match t.phase with
    | .recovering recovery => t.db.walkRank recovery
    | _ => toLex (0, toLex (0, 0))
  have isRank : ∀ {t : System} {recovery : Recovery}, t.phase = .recovering recovery →
      rank t = t.db.walkRank recovery := by
    intro t recovery phase
    simp only [rank, phase]
  have onward : ∀ n, Recovers s (e.state n) → Recovers s (e.state (n + 1)) ∧
      rank (e.state (n + 1)) ≤ rank (e.state n) ∧
      ((∃ a, e.label n = .recover a) → rank (e.state (n + 1)) < rank (e.state n)) := by
    intro n recovers
    obtain ⟨stepped, undisturbed⟩ := e.next n
    refine ⟨recovers.step undisturbed stepped, ?_⟩
    obtain ⟨displays, recovery, phase, _⟩ := recovers
    obtain ⟨after, onward⟩ := onward_step displays phase undisturbed stepped
    rw [isRank phase, isRank onward.phase]
    exact ⟨onward.rank, fun ⟨a, isAct⟩ => onward.lower a isAct⟩
  obtain ⟨n, _, recovery, phase, passed⟩ := @Execution.eventually_of_rank _ _ _ _ 0 _ _ e (Recovers s)
    (fun t => ∃ recovery, t.phase = .recovering recovery ∧ recovery.Over)
    (fun act => ∃ a, act = .recover a) rank
    (fun n recovers => by
      obtain ⟨_, recovery, phase, _⟩ := recovers
      by_cases passed : recovery.Over
      · exact ⟨n, le_rfl, .inl ⟨recovery, phase, passed⟩⟩
      · obtain ⟨m, later, mine⟩ := fair n recovery phase passed
        exact ⟨m, later, .inr mine⟩)
    (fun n recovers => .inr ⟨(onward n recovers).1, (onward n recovers).2.1⟩)
    (fun n recovers mine => .inr ⟨(onward n recovers).1, (onward n recovers).2.2 mine⟩) begun
  exact ⟨n, recovery, phase, passed⟩

/-- For every database of active tasks and every content of their exit records: a recovery none of
whose probes raises goes on until its last page is done, every task that was active has then ended
or has a waiter, and only the receipt and the retention are left before the controller serves. -/
theorem recovery_total (displays : s.db.Displays)
    (begun : Step config s (.recoverBegin readable) middle) :
    (∀ acts t, Run (Guarded (Step config) (Undisturbed config)) middle acts t →
      ∃ recovery, t.phase = .recovering recovery ∧
        (¬ recovery.Over → ∃ a u, Step config t (.recover a) u) ∧
        (recovery.Over → ∀ id row, s.db.getTask id = some row → row.state.active = true →
          t.Attended id)) ∧
    ∀ e : Execution (Guarded (Step config) (Undisturbed config)), e.state 0 = middle →
      (∀ n recovery, (e.state n).phase = .recovering recovery → ¬ recovery.Over →
        ∃ m, n ≤ m ∧ ∃ a, e.label m = .recover a) →
      ∃ n recovery, (e.state n).phase = .recovering recovery ∧ recovery.Over := by
  have start := recovers_begin displays begun
  refine ⟨fun acts t run => ?_, fun e first fair => recovers_ends e (first ▸ start) fair⟩
  have recovers : Recovers s t := run.invariant
    (fun recovers stepped => recovers.step stepped.2 stepped.1) start
  obtain ⟨_, recovery, phase, covered⟩ := recovers
  exact ⟨recovery, phase, recover_enabled phase,
    fun passed id row found active => (covered id row found active).attended passed⟩

instance : Decidable recovery.Over :=
  match point : recovery.point with
  | .next =>
    if walked : recovery.todo.isEmpty = true ∧ recovery.tail.isNone = true then
      .isTrue ⟨point, List.isEmpty_iff.mp walked.1, Option.isNone_iff_eq_none.mp walked.2⟩
    else .isFalse (fun passed => walked ⟨by rw [passed.todo]; rfl, by rw [passed.tail]; rfl⟩)
  | .probing _ _ _ | .evaluating _ _ => .isFalse (fun passed => by
      have same := passed.point
      rw [point] at same
      cases same)

def System.walked (s : System) : Bool :=
  match s.phase with
  | .recovering recovery => decide recovery.Over
  | _ => false

/-- A unit runs when the controller dies. -/
def unitLeft : List Act :=
  firstStart ++ [.submit "a" (.keyed []), .tick "" none, .task "a" .startBegin, .task "a" .accept,
    .task "a" (.startReturn 1), .crash]

theorem recovery_total_unit : ∃ s middle t,
    steps (.plain .systemd) (.initial "boot" "2026" .missing) unitLeft = some s ∧
    Step (.plain .systemd) s (.recoverBegin true) middle ∧
    Run (Guarded (Step (.plain .systemd)) (Undisturbed (.plain .systemd))) middle
      [.recover .next, .recover .query, .recover .resume] t ∧ t.Attended "a" := by
  have evaluated : (steps (.plain .systemd) (.initial "boot" "2026" .missing) unitLeft).any (fun s =>
      (s.db.getTask "a").any (fun row => row.state.active) &&
      (step (.plain .systemd) s (.recoverBegin true)).any (fun middle =>
        middle.recordWhole (.plain .systemd) &&
        (steps (.plain .systemd) middle [.recover .next, .recover .query, .recover .resume]).any
          System.walked)) = true := by decide +kernel
  obtain ⟨s, ran, both⟩ := Option.any_eq_true _ _ |>.mp evaluated
  obtain ⟨stored, begins⟩ := Bool.and_eq_true _ _ |>.mp both
  obtain ⟨row, found, active⟩ := Option.any_eq_true _ _ |>.mp stored
  obtain ⟨middle, begun, rest⟩ := Option.any_eq_true _ _ |>.mp begins
  obtain ⟨whole, walks⟩ := Bool.and_eq_true _ _ |>.mp rest
  obtain ⟨t, walk, walked⟩ := Option.any_eq_true _ _ |>.mp walks
  have displays : s.db.Displays := by
    refine displays_run (steps_run ran) ?_ displays_empty
    simp only [unitLeft, firstStart, List.cons_append, List.nil_append, List.forall_mem_cons,
      Act.drafts,
      List.not_mem_nil, false_implies, implies_true, and_true, true_and]
    exact displayable_nil
  have quiet : ∀ act ∈ [Act.recover .query, .recover .resume], ∀ s,
    Undisturbed (.plain .systemd) s act := by
    simp only [List.forall_mem_cons]
    refine ⟨fun s => ⟨rfl, ?_, ?_, ?_, ?_⟩, fun s => ⟨rfl, ?_, ?_, ?_, ?_⟩, ?_⟩ <;> simp
  have run : Run (Guarded (Step (.plain .systemd)) (Undisturbed (.plain .systemd))) middle
      [.recover .next, .recover .query, .recover .resume] t := by
    obtain ⟨first, stepped, later⟩ := Option.bind_eq_some_iff.mp walk
    refine .cons ⟨stepped, rfl, ?_, fun _ => whole, ?_, ?_⟩ (guarded_run quiet later) <;> simp
  obtain ⟨recovery, phase, _, attended⟩ := (recovery_total displays begun).1 _ t run
  refine ⟨s, middle, t, ran, begun, run, attended ?_ "a" row found active⟩
  rw [System.walked, phase] at walked
  exact of_decide_eq_true walked

/-- The first of two units has left half an exit record when the controller dies. The next
controller dies over it, and the second unit, which runs, stays unwatched. -/
def recordHalved : List Act :=
  firstStart ++ [.submit "a" (.keyed []), .submit "b" (.keyed []), .tick "" none,
    .task "a" .startBegin, .task "a" .accept, .task "a" (.startReturn 1),
    .task "b" .startBegin, .task "b" .accept, .task "b" (.startReturn 2),
    .task "a" (.exit .unreadable), .crash, .recoverBegin true, .recover .next]

theorem recovery_dies : ∃ t a b,
    Run (Step (.plain .systemd)) (.initial "boot" "2026" .missing) recordHalved t ∧
    t.phase = .down ∧ t.db.getTask "a" = some a ∧ a.state = .running ∧
    t.db.getTask "b" = some b ∧ b.state = .running ∧ (t.cells.get "b").tree.owns = true ∧
    (t.cells.get "a").waiter = none ∧ (t.cells.get "b").waiter = none := by
  have evaluated : (steps (.plain .systemd) (.initial "boot" "2026" .missing) recordHalved).any
    (fun t =>
      t.phase.isDown &&
      (t.db.getTask "a").any (fun a => a.state = .running) &&
      (t.db.getTask "b").any (fun b => b.state = .running) &&
      (t.cells.get "b").tree.owns && (t.cells.get "a").waiter.isNone &&
      (t.cells.get "b").waiter.isNone) = true := by decide +kernel
  obtain ⟨t, ran, facts⟩ := Option.any_eq_true _ _ |>.mp evaluated
  simp only [Bool.and_eq_true] at facts
  obtain ⟨⟨⟨⟨⟨down, firstRow⟩, secondRow⟩, owns⟩, first⟩, second⟩ := facts
  obtain ⟨a, foundA, runsA⟩ := Option.any_eq_true _ _ |>.mp firstRow
  obtain ⟨b, foundB, runsB⟩ := Option.any_eq_true _ _ |>.mp secondRow
  exact ⟨t, a, b, steps_run ran, Phase.isDown_iff.mp down, foundA, of_decide_eq_true runsA, foundB,
    of_decide_eq_true runsB, owns, Option.isNone_iff_eq_none.mp first,
      Option.isNone_iff_eq_none.mp second⟩

end Runs
end LocalFlow
