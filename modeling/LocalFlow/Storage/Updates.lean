import LocalFlow.Storage.Edits

/-! The edits each operation of the store makes. -/
namespace LocalFlow
variable {accepts : TaskCreate → Prop} {db next : Db} {now : String} {id other : TaskId}

/-- What an operation on one task does: it moves that task only, keeps its row and starts
nothing. -/
structure UpdateOf (id : TaskId) (db next : Db) : Prop where
  updates : Updates db next
  frame : ∀ other, other ≠ id → next.getTask other = db.getTask other
  stored : (next.getTask id).isSome = (db.getTask id).isSome
  journal : ∃ states : List TaskState, next.journal = db.journal ++
    states.map (fun state => (id, state)) ∧
    TaskState.starting ∉ states

namespace UpdateOf
variable {last : Db}

theorem refl (db : Db) : UpdateOf id db db :=
  ⟨.refl, fun _ _ => rfl, rfl, [], by simp⟩

theorem trans (first : UpdateOf id db next) (second : UpdateOf id next last) : UpdateOf id db last where
  updates := first.updates.trans second.updates
  frame other apart := (second.frame other apart).trans (first.frame other apart)
  stored := second.stored.trans first.stored
  journal := by
    obtain ⟨early, isEarly, quietEarly⟩ := first.journal
    obtain ⟨late, isLate, quietLate⟩ := second.journal
    exact ⟨early ++ late, by simp [isLate, isEarly], by simp [quietEarly, quietLate]⟩

end UpdateOf

/-- The callers' transitions, other than admission. -/
theorem update_transition (db : Db) (now : String) (id : TaskId) (expected : List TaskState)
    (state : TaskState) (fields : List Field) (override : Option TaskStatus)
    (legal : ∀ before ∈ expected, before.mayBecome state = true)
    (stamps : Stamps state fields) (running : state ≠ .starting) :
    UpdateOf id db (db.transition now id expected state fields override).1 := by
  obtain ⟨same, _⟩ | ⟨same, _⟩ | ⟨row, status, found, expects, moved⟩ :=
    db.transition_cases now id expected state fields override
  · exact same ▸ .refl db
  · exact same ▸ .refl db
  · rw [moved]
    exact {
      updates := .single (.move status found (legal _ expects) stamps (fun bad => absurd bad running))
      frame := fun other apart => by simp [apart]
      stored := by simp
      journal := ⟨[state], rfl, by simpa using Ne.symm running⟩ }

theorem update_event {kind : String} (quiet : isLifecycle kind = false) :
    UpdateOf id db (db.addEvent now (some id) kind) where
  updates := .single (.event quiet)
  frame _ _ := rfl
  stored := rfl
  journal := ⟨[], by simp⟩

theorem changes_createTask {draft : TaskCreate} (accepted : accepts draft)
    (unused : db.written id = []) (created : db.createTask now id draft = some next) :
    Changes accepts db next :=
  .single (.submit accepted unused created)

theorem updates_tables (acknowledgements : List Acknowledgement) (batches : List BatchRecord)
    (batchTasks : List BatchTask) (idempotency : List IdempotencyRecord) :
    Updates db { db with acknowledgements, batches, batchTasks, idempotency } :=
  .single (.tables _ _ _ _)

theorem changes_insertBatchTasks {createdAt batchId : String} {tasks : List (TaskId × TaskCreate)}
    {sequence : Nat} (accepted : ∀ draft ∈ tasks.map Prod.snd, accepts draft)
    (unused : ∀ id ∈ tasks.map Prod.fst, db.written id = [])
    (distinct : (tasks.map Prod.fst).Nodup)
    (filled : Db.insertBatchTasks now createdAt batchId tasks sequence db = some next) :
    Changes accepts db next := by
  induction tasks generalizing db sequence with
  | nil =>
    cases filled
    exact .refl
  | cons head rest ih =>
    obtain ⟨id, draft⟩ := head
    rw [List.map_cons, List.nodup_cons] at distinct
    simp only [Db.insertBatchTasks, Option.bind_eq_bind, Option.bind_eq_some_iff] at filled
    obtain ⟨inserted, insertion, filled⟩ := filled
    have first : Edit accepts db inserted :=
      .submit (accepted draft (by simp)) (unused id (by simp)) insertion
    refine .head first (.trans (updates_tables _ _ _ _).changes (ih
      (fun other member => accepted other (List.mem_cons_of_mem _ member)) (fun other member => ?_)
      distinct.2 filled))
    have apart : other ≠ id := fun same => distinct.1 (same ▸ member)
    change inserted.written other = []
    rw [Db.written_insertTask insertion, if_neg apart]
    exact unused other (List.mem_cons_of_mem _ member)

theorem changes_createBatch {createdAt batchId template : String} {values : Object}
    {tasks : List (TaskId × TaskCreate)}
    {idempotency : Option (String × String × String × BatchResponse)} {outcome : Db.BatchOutcome}
    (accepted : ∀ draft ∈ tasks.map Prod.snd, accepts draft)
    (unused : ∀ id ∈ tasks.map Prod.fst, db.written id = [])
    (distinct : (tasks.map Prod.fst).Nodup)
    (created : db.createBatch now createdAt batchId template values tasks idempotency =
      some (next, outcome)) : Changes accepts db next := by
  simp only [Db.createBatch, Option.bind_eq_bind] at created
  split at created
  · split at created
    · cases created
      exact .refl
    · cases created
  · split at created
    · cases created
    · obtain ⟨filled, filling, done⟩ := Option.bind_eq_some_iff.mp created
      have rest := changes_insertBatchTasks accepted (by exact unused) distinct filling
      have opened : Changes accepts db filled := .trans (updates_tables _ _ _ _).changes rest
      have announced : Changes accepts db (filled.addEvent now none "batch.created") :=
        .tail opened (.event rfl)
      split at done
      · cases done
        exact announced
      · cases done
        exact announced.trans (updates_tables _ _ _ _).changes

theorem frame_note (blockers keys : List String) : Frame (fun row => if row.state = .queued then
    { row with blockedBy := Db.sortedSet blockers, blockedKeys := Db.sortedSet keys } else row) where
  id row := by split <;> rfl
  state row := by split <;> rfl
  createdAt row := by split <;> rfl
  mutexKeys row := by split <;> rfl
  endedAt row := by split <;> rfl
  executorRef row := by split <;> rfl
  pluginSnapshot row := by split <;> rfl
  submitted row := by
    split
    · exact ⟨_, rfl, .inr rfl⟩
    · exact ⟨_, rfl, .inr rfl⟩

theorem frame_snapshot (strategy : StopStrategy) :
    Frame (fun row => if row.stop.isNone then { row with stop := some strategy } else row) where
  id row := by split <;> rfl
  state row := by split <;> rfl
  createdAt row := by split <;> rfl
  mutexKeys row := by split <;> rfl
  endedAt row := by split <;> rfl
  executorRef row := by split <;> rfl
  pluginSnapshot row := by split <;> rfl
  submitted row := by
    split
    · rename_i unset
      exact ⟨_, rfl, .inl (Option.isNone_iff_eq_none.mp unset)⟩
    · exact ⟨_, rfl, .inr rfl⟩

theorem update_snapshotStop (strategy : StopStrategy) :
    UpdateOf id db (db.snapshotStop id strategy) where
  updates := .single (.note (frame_snapshot strategy))
  frame other apart := by simp [Db.snapshotStop, Db.getTask, apart]
  stored := by simp [Db.snapshotStop, Db.getTask]
  journal := ⟨[], by simp [Db.snapshotStop]⟩

theorem frame_logSize (size : Nat) : Frame (fun row => { row with logSize := size }) where
  id _ := rfl
  state _ := rfl
  createdAt _ := rfl
  mutexKeys _ := rfl
  endedAt _ := rfl
  executorRef _ := rfl
  pluginSnapshot _ := rfl
  submitted _ := ⟨_, rfl, .inr rfl⟩

theorem updates_setLogSize (size : Nat) : Updates db (db.setLogSize id size) :=
  .single (.note (frame_logSize size))

theorem updates_purgeTerminalTask {purged : Db × Bool}
    (done : db.purgeTerminalTask id = some purged) : Updates db purged.1 := by
  rw [Db.purgeTerminalTask_eq] at done
  obtain ⟨row, found, rfl⟩ := Option.map_eq_some_iff.mp done
  split
  · rename_i ended
    refine .single (.delete (fun other member row' found' => ?_))
    obtain rfl := List.mem_singleton.mp member
    rw [found] at found'
    exact Option.some.inj found' ▸ ended
  · exact .refl

theorem updates_retained (tasksBefore eventsBefore idempotencyBefore : String) :
    Updates db (db.retained tasksBefore eventsBefore idempotencyBefore) := by
  have purged : Updates db (if (db.terminalTaskIdsBefore tasksBefore).isEmpty then db
      else db.withoutTasks (db.terminalTaskIdsBefore tasksBefore)) := by
    split
    · exact .refl
    · refine .single (.delete (fun id member row found => ?_))
      obtain ⟨stored, same, ended⟩ := Db.purged_terminal member
      rw [found] at same
      exact Option.some.inj same ▸ ended
  exact .trans purged (.trans (.single (.forget _)) (updates_tables _ _ _ _))

end LocalFlow
