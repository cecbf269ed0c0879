import LocalFlow.Service.Attendance

/-! The walk of `recover` over the pages of the tasks that were active when it began: what is still
before it, and what one of its steps does. -/
namespace LocalFlow
variable {config : Config} {s t : System} {act : Act} {id : TaskId} {recovery : Recovery}

section Pages

@[simp] theorem moved_sortKey (row : TaskRecord) (state : TaskState) (fields : List Field)
    (status : TaskStatus) : (row.moved state fields status).sortKey = row.sortKey := by
  have created : (row.assign fields).createdAt = row.createdAt :=
    assign_frame row fields TaskRecord.createdAt (fun _ field _ => by cases field <;> rfl)
  change toLex ((row.assign fields).createdAt, (row.assign fields).id) = toLex (row.createdAt, row.id)
  rw [created, assign_id]

theorem Frame.sortKey {set : TaskRecord → TaskRecord} (frame : Frame set) (row : TaskRecord) :
    (set row).sortKey = row.sortKey := by
  unfold TaskRecord.sortKey
  rw [frame.createdAt, frame.id]

/-- A row keeps its place in the order of the pages. -/
theorem Updates.sortKey {db next : Db} (updates : Updates db next) {old new : TaskRecord}
    (stored : db.getTask id = some old) (found : next.getTask id = some new) :
    new.sortKey = old.sortKey := by
  induction updates generalizing new with
  | refl =>
    rw [stored] at found
    cases found
    rfl
  | tail _ edit ih =>
    obtain ⟨_, _, _, impossible, _⟩ | ⟨middle, isMiddle, moved⟩ := edit.origin found
    · exact absurd impossible not_false
    · rw [← ih isMiddle]
      obtain rfl | ⟨set, frame, rfl⟩ | ⟨_, _, _, _, _, rfl⟩ := moved
      · rfl
      · exact frame.sortKey middle
      · exact moved_sortKey middle _ _ _

/-- No update adds a row. -/
theorem Updates.keys {db next : Db} (updates : Updates db next) :
    (next.tasks.rows.map TaskRecord.sortKey).Sublist (db.tasks.rows.map TaskRecord.sortKey) := by
  have update : ∀ (tasks : Tasks) (id : TaskId) (set : TaskRecord → TaskRecord)
      (keeps : ∀ row, (set row).id = row.id), (∀ row, (set row).sortKey = row.sortKey) →
      (tasks.update id set keeps).rows.map TaskRecord.sortKey = tasks.rows.map TaskRecord.sortKey := by
    intro tasks id set keeps same
    change (tasks.rows.map _).map _ = _
    rw [List.map_map]
    refine List.map_congr_left (fun row _ => ?_)
    simp only [Function.comp_apply]
    split
    · exact same row
    · rfl
  induction updates with
  | refl => exact .refl _
  | tail _ edit ih =>
    refine List.Sublist.trans ?_ ih
    cases edit with
    | event | forget | tables => exact .refl _
    | submit impossible => exact absurd impossible not_false
    | move =>
      refine (update _ _ _ (fun row => moved_id row _ _ _) (fun row => moved_sortKey row _ _ _)).symm ▸
        .refl _
    | note frame => exact (update _ _ _ frame.id frame.sortKey).symm ▸ .refl _
    | delete => exact (List.filter_sublist).map _

theorem ownedPage_eq (s : System) (cursor : Option SortKey) : (s.ownedPage cursor).1 =
    Keyset.page TaskRecord.sortKey taskPageSize cursor (s.db.inStates activeStates) :=
  Db.statePage_eq s.db activeStates (by decide) taskPageSize cursor

/-- An active task after the cursor is on the page, or after its end. -/
theorem ownedPage_listed {cursor : Option SortKey} {row : TaskRecord}
    (stored : s.db.getTask id = some row) (active : row.state.active = true)
    (after : Keyset.After TaskRecord.sortKey cursor row) :
    row ∈ (s.ownedPage cursor).1 ∨ ∃ key, (s.ownedPage cursor).2 = some key ∧ key < row.sortKey := by
  have distinct := Db.distinct_inStates s.db activeStates
  have listed : row ∈ Keyset.remaining TaskRecord.sortKey cursor (s.db.inStates activeStates) := by
    rw [Keyset.mem_remaining]
    refine ⟨?_, after⟩
    rw [Db.inStates, List.mem_filter]
    exact ⟨(Tasks.get?_mem stored).1, by simpa using active⟩
  by_cases member : row ∈ (s.ownedPage cursor).1
  · exact .inl member
  right
  rw [ownedPage_eq] at member
  have rest : row ∈ (Keyset.remaining TaskRecord.sortKey cursor (s.db.inStates activeStates)).drop
      taskPageSize := by
    rw [← List.take_append_drop taskPageSize (Keyset.remaining _ _ _), List.mem_append] at listed
    exact listed.resolve_left member
  have full : (s.ownedPage cursor).1.length = taskPageSize := by
    rw [ownedPage_eq, Keyset.length_page]
    have := List.length_pos_of_mem rest
    rw [List.length_drop] at this
    omega
  cases isLast : (s.ownedPage cursor).1.getLast? with
  | none =>
    rw [List.getLast?_eq_none_iff.mp isLast] at full
    cases full
  | some last =>
    refine ⟨last.sortKey, ?_, ?_⟩
    · have isTail : (s.ownedPage cursor).2 = if (s.ownedPage cursor).1.length < taskPageSize then none
          else (s.ownedPage cursor).1.getLast?.map TaskRecord.sortKey := rfl
      rw [isTail, full, if_neg (lt_irrefl _), isLast, Option.map_some]
    · rw [ownedPage_eq] at isLast
      rw [← distinct.remaining_page isLast, Keyset.mem_remaining] at rest
      exact rest.2

/-- The page after the cursor begins after it. -/
theorem ownedPage_tail {cursor : Option SortKey} {key : SortKey}
    (tail : (s.ownedPage cursor).2 = some key) :
    ∃ row ∈ s.db.tasks.rows, row.sortKey = key ∧ Keyset.After TaskRecord.sortKey cursor row := by
  have isTail : (s.ownedPage cursor).2 = if (s.ownedPage cursor).1.length < taskPageSize then none
      else (s.ownedPage cursor).1.getLast?.map TaskRecord.sortKey := rfl
  rw [isTail] at tail
  split at tail
  · cases tail
  · obtain ⟨row, last, rfl⟩ := Option.map_eq_some_iff.mp tail
    have member := List.mem_of_getLast? last
    rw [ownedPage_eq] at member
    obtain ⟨listed, after⟩ := Keyset.mem_page member
    exact ⟨row, List.mem_of_mem_filter listed, rfl, after⟩

/-- How many rows lie after the page. -/
def Db.beyond (db : Db) (tail : Option SortKey) : Nat :=
  tail.elim 0 (fun key => ((db.tasks.rows.map TaskRecord.sortKey).filter (key < ·)).length + 1)

theorem beyond_updates {db next : Db} (updates : Updates db next) (tail : Option SortKey) :
    next.beyond tail ≤ db.beyond tail := by
  cases tail with
  | none => exact le_rfl
  | some key => exact Nat.succ_le_succ (updates.keys.filter _).length_le

theorem beyond_page (key : SortKey) :
    s.db.beyond (s.ownedPage (some key)).2 < s.db.beyond (some key) := by
  cases isTail : (s.ownedPage (some key)).2 with
  | none => exact Nat.succ_pos _
  | some next =>
    obtain ⟨row, member, rfl, after⟩ := ownedPage_tail isTail
    refine Nat.succ_lt_succ ?_
    generalize isKeys : s.db.tasks.rows.map TaskRecord.sortKey = keys
    have listed : row.sortKey ∈ keys.filter (key < ·) := by
      rw [List.mem_filter, ← isKeys]
      exact ⟨List.mem_map_of_mem member, by simpa using after⟩
    have later : keys.filter (row.sortKey < ·) = (keys.filter (key < ·)).filter (row.sortKey < ·) := by
      rw [List.filter_filter]
      refine List.filter_congr (fun other _ => ?_)
      rw [Bool.eq_iff_iff, Bool.and_eq_true, decide_eq_true_eq, decide_eq_true_eq]
      exact ⟨fun below => ⟨below, lt_trans after below⟩, And.left⟩
    rw [later]
    exact List.length_filter_lt_length_iff_exists.mpr ⟨row.sortKey, listed, by simp⟩

end Pages

section Walk

/-- The task `recover` is deciding about. -/
def RecoveryPoint.task : RecoveryPoint → Option TaskRecord
  | .next => none
  | .probing task _ _ | .evaluating task _ => some task

/-- `recover` has still to decide about a row. -/
inductive Recovery.Awaits (recovery : Recovery) (row : TaskRecord) : Prop where
  | current (task : TaskRecord) (point : recovery.point.task = some task) (named : task.id = row.id)
  | listed (task : TaskRecord) (member : task ∈ recovery.todo) (named : task.id = row.id)
  | later (key : SortKey) (tail : recovery.tail = some key) (beyond : key < row.sortKey)

/-- Every page has been walked through. -/
structure Recovery.Over (recovery : Recovery) : Prop where
  point : recovery.point = .next
  todo : recovery.todo = []
  tail : recovery.tail = none

theorem Recovery.Over.awaits (passed : recovery.Over) (row : TaskRecord) : ¬ recovery.Awaits row := by
  rintro (⟨_, point, _⟩ | ⟨_, member, _⟩ | ⟨_, tail, _⟩)
  · rw [passed.point] at point
    cases point
  · rw [passed.todo] at member
    cases member
  · rw [passed.tail] at tail
    cases tail

/-- The first page and what lies beyond it hold every active task. -/
theorem awaits_begin {row : TaskRecord} (stored : s.db.getTask id = some row)
    (active : row.state.active = true) (bootId : Option String) (hostRestarted : Bool) :
    Recovery.Awaits ⟨bootId, hostRestarted, (s.ownedPage none).1, (s.ownedPage none).2, .next⟩ row := by
  obtain listed | ⟨key, tail, beyond⟩ := ownedPage_listed stored active (Keyset.after_none row)
  · exact .listed row listed rfl
  · exact .later key tail beyond

/-- How much of the walk is left within a task. -/
def RecoveryPoint.rank : RecoveryPoint → Nat
  | .next => 0
  | .evaluating _ _ => 1
  | .probing _ _ (some _) => 2
  | .probing _ _ none => 3

/-- How much of the walk is left. -/
def Db.walkRank (db : Db) (recovery : Recovery) : ℕ ×ₗ ℕ ×ₗ ℕ :=
  toLex (db.beyond recovery.tail, toLex (recovery.todo.length, recovery.point.rank))

theorem walkRank_updates {db next : Db} (updates : Updates db next) (recovery : Recovery) :
    next.walkRank recovery ≤ db.walkRank recovery := by
  rw [Db.walkRank, Db.walkRank, Prod.Lex.le_iff]
  obtain less | same := (beyond_updates updates recovery.tail).lt_or_eq
  · exact .inl less
  · exact .inr ⟨same, le_rfl⟩

/-- One task of the page less. -/
theorem walkRank_todo (db : Db) {after : Recovery} {task : TaskRecord}
    (todo : recovery.todo = task :: after.todo) (tail : after.tail = recovery.tail) :
    db.walkRank after < db.walkRank recovery := by
  rw [Db.walkRank, Db.walkRank, Prod.Lex.lt_iff, tail]
  refine .inr ⟨rfl, ?_⟩
  rw [Prod.Lex.lt_iff]
  refine .inl ?_
  rw [todo]
  exact Nat.lt_succ_self _

/-- One look at the task less. -/
theorem walkRank_point (db : Db) {point : RecoveryPoint} (below : point.rank < recovery.point.rank) :
    db.walkRank { recovery with point } < db.walkRank recovery := by
  rw [Db.walkRank, Db.walkRank, Prod.Lex.lt_iff]
  refine .inr ⟨rfl, ?_⟩
  rw [Prod.Lex.lt_iff]
  exact .inr ⟨rfl, below⟩

/-- The controller and the host go on. -/
def Act.survives : Act → Bool
  | .crash | .reboot _ => false
  | _ => true

/-- Of a task the controller or its host forgets, only the tree is left. -/
theorem crash_step (dies : act.survives = false) (stepped : Step config s act t) :
    t.phase = .down ∧ t.db = s.db ∧ ∀ id, ∃ tree, t.cells.get id = { tree } ∧
      (tree = (s.cells.get id).tree.orphan config.backend ∨
        tree = ((s.cells.get id).tree.orphan config.backend).reboot) := by
  unfold Step step at stepped
  cases act with
  | crash =>
    cases stepped
    exact ⟨rfl, rfl, fun id => ⟨_, get_crash, .inl rfl⟩⟩
  | reboot boot =>
    cases stepped
    exact ⟨rfl, rfl, fun id => ⟨_, get_reboot boot, .inr rfl⟩⟩
  | _ => cases dies

/-- While `recover` runs, the only other steps are those of single tasks, of their logs and of the
clock. -/
theorem recovering_step (phase : s.phase = .recovering recovery) (survives : act.survives = true)
    (stepped : Step config s act t) :
    (∃ id a slot, act = .task id a ∧ (s.slot id).taskStep config (s.moment id) id a = some slot ∧
      t = s.put id slot) ∨
    ((∀ a, act ≠ .recover a) ∧ (∀ id a, act ≠ .task id a) ∧ t.db = s.db ∧ t.cells = s.cells ∧
      t.phase = .recovering recovery ∧ t.boot = s.boot ∧ t.receipt = s.receipt) ∨
    ∃ a, act = .recover a ∧ s.recoverStep config recovery a = some t := by
  unfold Step step at stepped
  rw [phase] at stepped
  split at stepped
  · rename_i id a
    obtain ⟨slot, moved, rfl⟩ := Option.map_eq_some_iff.mp stepped
    exact .inl ⟨id, a, slot, rfl, moved, rfl⟩
  · rename_i impossible
    cases impossible
  · rename_i impossible
    cases impossible
  · rename_i impossible
    cases impossible
  · cases stepped
    exact .inr (.inl ⟨by simp, by simp, rfl, rfl, phase, rfl, rfl⟩)
  · split at stepped <;> cases stepped
    exact .inr (.inl ⟨by simp, by simp, rfl, rfl, rfl, rfl, rfl⟩)
  · rename_i impossible
    cases impossible
  · rename_i impossible
    cases impossible
  · cases survives
  · cases survives
  · rename_i impossible
    cases impossible
  · rename_i a _ _ same
    cases same
    exact .inr (.inr ⟨_, rfl, stepped⟩)
  · rename_i impossible
    cases impossible
  · rename_i impossible
    cases impossible
  · cases stepped

theorem recoverBegin_step {readable : Bool} (stepped : Step config s (.recoverBegin readable) t) :
    s.phase = .down ∧ t = s.recoverBegin readable := by
  unfold Step step at stepped
  cases phase : s.phase with
  | down =>
    rw [phase] at stepped
    exact ⟨rfl, (Option.some.inj stepped).symm⟩
  | recovering | serving | closing =>
    rw [phase] at stepped
    cases stepped

theorem recover_step {a : RecoverAct} (stepped : Step config s (.recover a) t) :
    ∃ recovery, s.phase = .recovering recovery ∧ s.recoverStep config recovery a = some t := by
  unfold Step step at stepped
  cases phase : s.phase with
  | recovering recovery =>
    rw [phase] at stepped
    exact ⟨recovery, rfl, stepped⟩
  | down | serving | closing =>
    rw [phase] at stepped
    cases stepped

theorem closing_step {a : ShutdownAct} (stepped : Step config s (.closing a) t) :
    ∃ shutdown, s.phase = .closing shutdown ∧ s.shutdownStep config shutdown a = some t := by
  unfold Step step at stepped
  cases phase : s.phase with
  | closing shutdown =>
    rw [phase] at stepped
    exact ⟨shutdown, rfl, stepped⟩
  | down | serving | recovering =>
    rw [phase] at stepped
    cases stepped

/-- Where `recover` goes next within a task. -/
inductive Walks (config : Config) (s : System) (recovery : Recovery) : RecoveryPoint → Prop where
  | next : Walks config s recovery .next
  | probe (task : TaskRecord) (rest : List TaskRecord) (completed : Option Int)
      (point : recovery.point = .next) (todo : recovery.todo = task :: rest)
      (kept : recovery.hostRestarted = false)
      (read : completedCode config.backend (s.cells.get task.id).tree = some completed) :
      Walks config s recovery (.probing task completed none)
  | asked (task : TaskRecord) (completed : Option Int)
      (point : recovery.point = .probing task completed none) :
      Walks config s recovery (.probing task completed
        (some (isRunning config.backend task.executorRef (s.cells.get task.id).tree)))
  | ended (task : TaskRecord) (code : Int)
      (point : recovery.point = .probing task (some code) (some false)) :
      Walks config s recovery (.evaluating task code)

/-- The walk after a step of `recover`: what it knows of the host stays, and every task it visits
was on its way before or has just been read as active. -/
structure Walked (config : Config) (s : System) (recovery after : Recovery) : Prop where
  bootId : after.bootId = recovery.bootId
  hostRestarted : after.hostRestarted = recovery.hostRestarted
  point : Walks config s recovery after.point
  todo : ∀ task ∈ after.todo, task ∈ recovery.todo ∨
    s.db.getTask task.id = some task ∧ task.state.active = true

theorem ownedPage_active {cursor : Option SortKey} {task : TaskRecord}
    (member : task ∈ (s.ownedPage cursor).1) :
    s.db.getTask task.id = some task ∧ task.state.active = true := by
  obtain ⟨stored, active⟩ := Db.mem_statePage (by decide) member
  exact ⟨stored, mem_activeStates.mp active⟩

theorem settleRecovered_phase (config : Config) {after : Recovery} {target : TaskId}
    {state : TaskState} {fields : List Field}
    {override : Option TaskStatus} {extra : Option String} :
    (s.settleRecovered config after target state fields override extra).phase = .down ∨
    (s.settleRecovered config after target state fields override extra).phase =
      .recovering { after with point := .next } := by
  unfold System.settleRecovered
  split
  · exact .inl rfl
  · exact .inr rfl

/-- A step of `recover` ends it, hands over to the service, or walks on. -/
theorem recoverStep_walked {a : RecoverAct} (stepped : s.recoverStep config recovery a = some t) :
    t.phase = .down ∨ (t.phase = .serving ∧ ∃ fails cutoff faults, a = .finish fails cutoff faults) ∨
    ∃ after, t.phase = .recovering after ∧ Walked config s recovery after := by
  have settled : ∀ (middle : System) (todo : List TaskRecord) (target : TaskId) (state : TaskState)
      (fields : List Field) (override : Option TaskStatus) (extra : Option String),
      (∀ task ∈ todo, task ∈ recovery.todo) → ∀ u, u = middle.settleRecovered config
        { recovery with todo } target state fields override extra →
      u.phase = .down ∨ (u.phase = .serving ∧ ∃ fails cutoff faults, a = .finish fails cutoff faults) ∨
      ∃ after, u.phase = .recovering after ∧ Walked config s recovery after := by
    rintro middle todo target state fields override extra sub u rfl
    obtain down | phase := settleRecovered_phase config
    · exact .inl down
    · exact .inr (.inr ⟨_, phase, rfl, rfl, .next, fun task member => .inl (sub task member)⟩)
  unfold System.recoverStep at stepped
  split at stepped
  · rename_i point
    unfold System.recoverNext at stepped
    split at stepped
    · obtain ⟨key, _, rfl⟩ := Option.map_eq_some_iff.mp stepped
      refine .inr (.inr ⟨_, rfl, rfl, rfl, ?_, fun task member => .inr (ownedPage_active member)⟩)
      dsimp only
      rw [point]
      exact .next
    · rename_i task rest todo
      have sub : ∀ other ∈ rest, other ∈ recovery.todo := by
        intro other member
        rw [todo]
        exact List.mem_cons_of_mem _ member
      dsimp only at stepped
      split at stepped
      · cases stepped
        exact settled _ _ _ _ _ _ _ sub _ rfl
      · rename_i kept
        split at stepped <;> cases stepped
        · exact .inl rfl
        · rename_i completed read
          exact .inr (.inr ⟨_, rfl, rfl, rfl,
            .probe task rest completed point todo (by simpa using kept) read,
            fun other member => .inl (sub other member)⟩)
  · rename_i task completed point
    cases stepped
    exact .inr (.inr ⟨_, rfl, rfl, rfl, .asked task completed point, fun _ member => .inl member⟩)
  · cases stepped
    exact .inl rfl
  · rename_i task completed running point
    cases stepped
    unfold System.recoverResume
    split
    · exact .inr (.inr ⟨_, rfl, rfl, rfl, .ended task _ point, fun _ member => .inl member⟩)
    · exact .inr (.inr ⟨_, rfl, rfl, rfl, .next, fun _ member => .inl member⟩)
    · split <;> exact settled _ recovery.todo _ _ _ _ _ (fun _ member => member) _ rfl
  · cases stepped
    unfold System.recoverEvaluated
    dsimp only
    split
    · exact .inl rfl
    · exact settled _ recovery.todo _ _ _ _ _ (fun _ member => member) _ rfl
  · split at stepped <;> cases stepped
    unfold System.recoverFinish
    split
    · exact .inl rfl
    · dsimp only
      split
      · exact .inl rfl
      · exact .inr (.inl ⟨rfl, _, _, _, rfl⟩)
  · cases stepped

end Walk
end LocalFlow
