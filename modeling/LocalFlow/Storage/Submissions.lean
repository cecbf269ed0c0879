import LocalFlow.Library.Sequence
import LocalFlow.Storage.Submit

/-! What one submission leaves in the store: the tables it extends when it returns, and nothing
when its transaction raises. -/
namespace LocalFlow
open Faults

/-- The draw of one allocation from its sequence. -/
def Allocation.draw (allocation : Allocation) : String × Int :=
  (allocation.request.metadataKey, allocation.value)

theorem Dict.get_set_update {κ V : Type*} [DecidableEq κ] [Inhabited V] (dict : Dict κ V) (key : κ)
    (value : V) : (dict.set key value).get = Function.update dict.get key value := by
  funext other
  rw [Dict.get_set, Function.update_apply]

namespace Store

/-- `task` is what the draft becomes with these integers. -/
structure Settles (draft : TaskDraft) (allocated : List Allocation) (task : TaskCreate) : Prop where
  requests : allocated.map (fun allocation => (allocation.name, allocation.request)) =
    draft.deferredValues
  plain : draft.deferredValues = [] → draft.toTaskCreate.validate = some task
  filled : draft.deferredValues ≠ [] → resolved draft (Allocation.values allocated) = some task

variable {s t : Store}

theorem returns_allocateDeferred {now : Int} {request : DeferredValue} {value : Int}
    (h : (allocateDeferred now request).Returns s value t) :
    s.metadata.get request.metadataKey < value ∧
    t = { s with metadata := s.metadata.set request.metadataKey value } := by
  obtain ⟨previous, u, looked, h⟩ := Work.returns_bind h
  obtain ⟨same, rfl⟩ := Work.returns_read looked
  cases same
  obtain ⟨_, v, written, last⟩ := Work.returns_bind h
  have stored := Work.returns_write written
  cases stored
  obtain ⟨rfl, rfl⟩ := Work.returns_pure last
  refine ⟨?_, rfl⟩
  exact Int.lt_of_lt_of_le (Int.lt_succ _) (Int.le_max_right _ _)

theorem returns_allocateAll {clock : Nat → Int} {entries : List (String × DeferredValue)} {n : Nat}
    {allocated : List Allocation} (h : (allocateAll clock entries n).Returns s allocated t) :
    allocated.map (fun allocation => (allocation.name, allocation.request)) = entries ∧
    ∃ metadata, t = { s with metadata } ∧
      Sequence.Draws s.metadata.get (allocated.map Allocation.draw) metadata.get := by
  induction entries generalizing s t n allocated with
  | nil =>
    obtain ⟨rfl, rfl⟩ := Work.returns_pure h
    exact ⟨rfl, t.metadata, rfl, .nil⟩
  | cons entry rest ih =>
    obtain ⟨name, request⟩ := entry
    obtain ⟨value, u, first, more⟩ := Work.returns_bind h
    obtain ⟨beyond, rfl⟩ := returns_allocateDeferred first
    obtain ⟨others, v, later, last⟩ := Work.returns_bind more
    obtain ⟨rfl, rfl⟩ := Work.returns_pure last
    obtain ⟨requests, metadata, rfl, draws⟩ := ih later
    refine ⟨by simp [requests], metadata, rfl, ?_⟩
    refine .cons beyond ?_
    simpa only [Dict.get_set_update] using draws

theorem returns_materializeDraft {clock : Nat → Int} {draft : TaskDraft} {task : TaskCreate}
    {allocated : List Allocation} (h : (materializeDraft clock draft).Returns s (task, allocated) t) :
    Settles draft allocated task ∧ ∃ metadata, t = { s with metadata } ∧
      Sequence.Draws s.metadata.get (allocated.map Allocation.draw) metadata.get := by
  unfold materializeDraft at h
  split at h
  · rename_i none
    have empty : draft.deferredValues = [] := List.isEmpty_iff.mp none
    obtain ⟨valid, u, checked, last⟩ := Work.returns_bind h
    obtain ⟨validated, rfl⟩ := Work.returns_given checked
    obtain ⟨same, rfl⟩ := Work.returns_pure last
    cases same
    exact ⟨⟨by simp [empty], fun _ => validated, fun some => absurd empty some⟩, t.metadata, rfl, .nil⟩
  · rename_i some
    have nonempty : draft.deferredValues ≠ [] := fun empty => some (List.isEmpty_iff.mpr empty)
    obtain ⟨drawn, u, allocates, more⟩ := Work.returns_bind h
    obtain ⟨filled, v, checked, last⟩ := Work.returns_bind more
    obtain ⟨resolves, rfl⟩ := Work.returns_given checked
    obtain ⟨same, rfl⟩ := Work.returns_pure last
    cases same
    obtain ⟨requests, metadata, rfl, draws⟩ := returns_allocateAll allocates
    exact ⟨⟨requests, fun none => absurd none nonempty, fun _ => resolves⟩, metadata, rfl, draws⟩

/-- One task a submission stores: its draft, the integers allocated for it and the task it became. -/
structure Entry where
  id : TaskId
  draft : TaskDraft
  allocated : List Allocation
  task : TaskCreate
  status : TaskStatus

def Entry.row (createdAt : String) (entry : Entry) : TaskRecord :=
  TaskRecord.fresh entry.id entry.task createdAt entry.status

def Entry.commit (request : Option (String × String)) (entry : Entry) : StoreCommit :=
  .task entry.id entry.draft entry.allocated request

def Entry.draws (entry : Entry) : List (String × Int) := entry.allocated.map Allocation.draw

structure Entry.Valid (entry : Entry) : Prop where
  settles : Settles entry.draft entry.allocated entry.task
  shown : displayStatus entry.task.pluginSnapshot .queued = some entry.status

/-- The tasks of a submission are appended, their integers drawn in order. -/
structure Appended (createdAt : String) (request : Option (String × String)) (entries : List Entry)
    (s t : Store) : Prop where
  rows : t.db.tasks.rows = s.db.tasks.rows ++ entries.map (Entry.row createdAt)
  commits : t.commits = s.commits ++ entries.map (Entry.commit request)
  draws : Sequence.Draws s.metadata.get (entries.flatMap Entry.draws) t.metadata.get
  valid : ∀ entry ∈ entries, entry.Valid
  receipts : t.receipts = s.receipts
  acknowledgements : t.db.acknowledgements = s.db.acknowledgements

/-- One task more, in the tables every submission shares. -/
theorem Appended.cons {createdAt : String} {request : Option (String × String)} {entry : Entry}
    {entries : List Entry} {u : Store} (first : Appended createdAt request [entry] s u)
    (rest : Appended createdAt request entries u t) :
    Appended createdAt request (entry :: entries) s t where
  rows := by
    rw [rest.rows, first.rows]
    simp
  commits := by
    rw [rest.commits, first.commits]
    simp
  draws := by
    have head : [entry].flatMap Entry.draws = entry.draws := by simp
    have draws := first.draws
    rw [head] at draws
    exact draws.append rest.draws
  valid := by
    intro other member
    rcases List.mem_cons.mp member with rfl | later
    · exact first.valid _ (List.mem_singleton_self _)
    · exact rest.valid other later
  receipts := rest.receipts.trans first.receipts
  acknowledgements := rest.acknowledgements.trans first.acknowledgements

theorem returns_onDb {f : Db → Option Db} {done : Unit} (h : (onDb f).Returns s done t) :
    ∃ db, f s.db = some db ∧ t = { s with db } := by
  have written := Work.returns_write h
  obtain ⟨db, works, rfl⟩ := Option.map_eq_some_iff.mp written
  exact ⟨db, works, rfl⟩

theorem returns_insertRow {row : TaskRecord} {commit : StoreCommit} {done : Unit}
    (h : (insertRow row commit).Returns s done t) :
    ∃ tasks, s.db.tasks.insert row = some tasks ∧
      t = { s with
        db := { s.db with tasks, journal := s.db.journal ++ [(row.id, TaskState.queued)] }
        commits := s.commits ++ [commit] } := by
  have written := Work.returns_write h
  obtain ⟨tasks, inserted, rfl⟩ := Option.map_eq_some_iff.mp written
  exact ⟨tasks, inserted, rfl⟩

/-- Statements on the other tables keep what was appended. -/
theorem Appended.after {createdAt : String} {request : Option (String × String)} {entries : List Entry}
    (appended : Appended createdAt request entries s t) (db : Db) (tasks : db.tasks = t.db.tasks)
    (acknowledgements : db.acknowledgements = t.db.acknowledgements) :
    Appended createdAt request entries s { t with db } where
  rows := by
    rw [← appended.rows]
    exact congrArg Tasks.rows tasks
  commits := appended.commits
  draws := appended.draws
  valid := appended.valid
  receipts := appended.receipts
  acknowledgements := acknowledgements.trans appended.acknowledgements

theorem Appended.keeps {createdAt : String} {request : Option (String × String)} {entries : List Entry}
    (appended : Appended createdAt request entries s t) {id : TaskId} {row : TaskRecord}
    (found : s.db.getTask id = some row) : t.db.getTask id = some row := by
  obtain ⟨member, rfl⟩ := Tasks.get?_mem found
  apply Tasks.get?_of_mem
  rw [appended.rows]
  exact List.mem_append_left _ member

theorem Appended.adds {createdAt : String} {request : Option (String × String)} {entries : List Entry}
    (appended : Appended createdAt request entries s t) {entry : Entry} (member : entry ∈ entries) :
    t.db.getTask entry.id = some (entry.row createdAt) := by
  have stored : Entry.row createdAt entry ∈ t.db.tasks.rows := by
    rw [appended.rows]
    exact List.mem_append_right _ (List.mem_map_of_mem member)
  exact Tasks.get?_of_mem stored

theorem Appended.isSome {createdAt : String} {request : Option (String × String)} {entries : List Entry}
    (appended : Appended createdAt request entries s t) {id : TaskId}
    (found : (s.db.getTask id).isSome) : (t.db.getTask id).isSome := by
  obtain ⟨row, same⟩ := Option.isSome_iff_exists.mp found
  rw [appended.keeps same]
  rfl

theorem returns_insertTask {createdAt : String} {clock : Nat → Int} {id : TaskId} {draft : TaskDraft}
    {request : Option (String × String)} {done : Unit}
    (h : (insertTask createdAt clock id draft request).Returns s done t) :
    ∃ entry : Entry, entry.id = id ∧ entry.draft = draft ∧ Appended createdAt request [entry] s t ∧
      ∃ tasks, s.db.tasks.insert (entry.row createdAt) = some tasks ∧
      t.db = { s.db with tasks, journal := s.db.journal ++ [(id, TaskState.queued)] } := by
  obtain ⟨⟨task, allocated⟩, u, materialized, stored⟩ := Work.returns_bind h
  obtain ⟨settles, metadata, rfl, draws⟩ := returns_materializeDraft materialized
  obtain ⟨status, v, displayed, inserts⟩ := Work.returns_bind stored
  obtain ⟨shown, rfl⟩ := Work.returns_given displayed
  obtain ⟨tasks, inserted, rfl⟩ := returns_insertRow inserts
  refine ⟨⟨id, draft, allocated, task, status⟩, rfl, rfl, ⟨?_, rfl, ?_, ?_, rfl, rfl⟩, tasks,
    inserted, rfl⟩
  · exact (Tasks.insert_some inserted).2
  · simpa [Entry.draws] using draws
  · intro other member
    rw [List.mem_singleton.mp member]
    exact ⟨settles, shown⟩

/-- What a call of `create_task` that committed has stored. -/
structure TaskStored (now : String) (request : Option (String × String)) (entry : Entry)
    (s t : Store) : Prop where
  appended : Appended now request [entry] s t
  refines : s.db.createTask now entry.id entry.task = some t.db
  batches : t.db.batches = s.db.batches
  batchTasks : t.db.batchTasks = s.db.batchTasks
  idempotency : t.db.idempotency = s.db.idempotency

theorem returns_taskTransaction {now : String} {clock : Nat → Int} {id : TaskId} {draft : TaskDraft}
    {request : Option (String × String)} {done : Unit}
    (h : (taskTransaction now clock id draft request).Returns s done t) :
    ∃ entry : Entry, entry.id = id ∧ entry.draft = draft ∧ TaskStored now request entry s t := by
  obtain ⟨_, u, inserts, announces⟩ := Work.returns_bind h
  obtain ⟨entry, rfl, rfl, appended, tasks, inserted, tables⟩ := returns_insertTask inserts
  obtain ⟨db, same, rfl⟩ := returns_onDb announces
  cases same
  refine ⟨entry, rfl, rfl, appended.after _ rfl rfl, ?_, ?_, ?_, ?_⟩
  · have shown := (appended.valid entry (List.mem_singleton_self _)).shown
    unfold Entry.row at inserted
    simp only [Db.createTask, Db.insertTask, shown, inserted, Option.bind_eq_bind, Option.bind_some]
    rw [tables]
  all_goals
    rw [tables]
    rfl

/-- `create_task` stores its task, whatever happens to the read after `COMMIT`. -/
theorem returns_createTask {now : String} {clock : Nat → Int} {id : TaskId} {draft : TaskDraft}
    {request : Option (String × String)} {record : TaskRecord}
    (h : (createTask now clock id draft request).Returns s record t) :
    (∃ entry : Entry, entry.id = id ∧ entry.draft = draft ∧ TaskStored now request entry s t) ∧
      t.db.getTask id = some record := by
  obtain ⟨_, u, stores, reads⟩ := Work.returns_bind h
  obtain ⟨found, rfl⟩ := Work.returns_read reads
  exact ⟨returns_taskTransaction (Work.returns_transaction stores), found⟩

theorem raises_createTask {now : String} {clock : Nat → Int} {id : TaskId} {draft : TaskDraft}
    {request : Option (String × String)} (h : (createTask now clock id draft request).Raises s t) :
    t = s ∨ ∃ entry : Entry, entry.id = id ∧ entry.draft = draft ∧
      TaskStored now request entry s t := by
  rcases Work.raises_bind h with rolled | ⟨_, u, stores, reads⟩
  · exact .inl (Work.raises_transaction rolled)
  · have same := Work.raises_read reads
    subst same
    exact .inr (returns_taskTransaction (Work.returns_transaction stores))

/-- The numbering of a batch, from `n` on. -/
def numbered (batchId : String) : List TaskId → Nat → List BatchTask
  | [], _ => []
  | id :: rest, n => ⟨batchId, id, n⟩ :: numbered batchId rest (n + 1)

theorem appended_nil (createdAt : String) (request : Option (String × String)) (s : Store) :
    Appended createdAt request [] s s where
  rows := by simp
  commits := by simp
  draws := .nil
  valid := by simp
  receipts := rfl
  acknowledgements := rfl

/-- What the loop of `create_batch` has stored. -/
structure TasksStored (now createdAt batchId : String) (sequence : Nat) (entries : List Entry)
    (s t : Store) : Prop where
  appended : Appended createdAt none entries s t
  refines : Db.insertBatchTasks now createdAt batchId
    (entries.map (fun entry => (entry.id, entry.task))) sequence s.db = some t.db
  batches : t.db.batches = s.db.batches
  batchTasks : t.db.batchTasks = s.db.batchTasks ++ numbered batchId (entries.map Entry.id) sequence
  idempotency : t.db.idempotency = s.db.idempotency

theorem returns_insertBatchTasks {now createdAt batchId : String} {clock : Nat → Nat → Int}
    {tasks : List (TaskId × TaskDraft)} {sequence : Nat} {done : Unit}
    (h : (insertBatchTasks now createdAt batchId clock tasks sequence).Returns s done t) :
    ∃ entries : List Entry, entries.map (fun entry => (entry.id, entry.draft)) = tasks ∧
      TasksStored now createdAt batchId sequence entries s t := by
  induction tasks generalizing s t sequence with
  | nil =>
    obtain ⟨_, rfl⟩ := Work.returns_pure h
    exact ⟨[], rfl, appended_nil createdAt none t, rfl, rfl, by simp [numbered], rfl⟩
  | cons task rest ih =>
    obtain ⟨id, draft⟩ := task
    obtain ⟨_, u, inserts, numbers⟩ := Work.returns_bind h
    obtain ⟨entry, rfl, rfl, appended, tables, inserted, left⟩ := returns_insertTask inserts
    obtain ⟨_, v, numbering, announces⟩ := Work.returns_bind numbers
    obtain ⟨db, same, rfl⟩ := returns_onDb numbering
    cases same
    obtain ⟨_, w, announcing, more⟩ := Work.returns_bind announces
    obtain ⟨db, same, rfl⟩ := returns_onDb announcing
    cases same
    obtain ⟨entries, rfl, stored⟩ := ih more
    have first := appended.after (({ u.db with
      batchTasks := u.db.batchTasks ++ [⟨batchId, entry.id, sequence⟩] } : Db).addEvent now
        (some entry.id)
        (lifecycleKind .queued)) rfl rfl
    refine ⟨entry :: entries, rfl, first.cons stored.appended, ?_, ?_, ?_, ?_⟩
    · have shown := (appended.valid entry (List.mem_singleton_self _)).shown
      unfold Entry.row at inserted
      have refines := stored.refines
      simp only [left] at refines
      simp only [List.map_cons, Db.insertBatchTasks, Db.insertTask, shown, inserted,
        Option.bind_eq_bind, Option.bind_some]
      exact refines
    · rw [stored.batches]
      simp [Db.addEvent, left]
    · rw [stored.batchTasks]
      simp [Db.addEvent, left, numbered]
    · rw [stored.idempotency]
      simp [Db.addEvent, left]

/-- The reservation a call of `create_batch` finds. -/
def BatchCall.reserved (call : BatchCall) (db : Db) : Option IdempotencyRecord :=
  call.reservation.bind (fun (actor, route, key) => db.reservation actor route key)

/-- The reservation a call of `create_batch` makes. -/
def BatchCall.reserves (call : BatchCall) : List IdempotencyRecord :=
  (call.reservation.map (fun (actor, route, key) =>
    (⟨actor, route, key, call.response, call.createdAt⟩ : IdempotencyRecord))).toList

def BatchCall.batch (call : BatchCall) : BatchRecord :=
  ⟨call.batchId, call.template, call.values, call.createdAt, configurationPath call.values⟩

/-- What a call of `create_batch` that committed a new batch has stored. -/
structure BatchStored (call : BatchCall) (entries : List Entry) (s t : Store) : Prop where
  tasks : entries.map (fun entry => (entry.id, entry.draft)) = call.tasks
  appended : Appended call.createdAt none entries s t
  fresh : ∀ batch ∈ s.db.batches, batch.id ≠ call.batchId
  batches : t.db.batches = s.db.batches ++ [call.batch]
  batchTasks : t.db.batchTasks = s.db.batchTasks ++ numbered call.batchId call.ids 0
  idempotency : t.db.idempotency = s.db.idempotency ++ call.reserves
  refines : s.db.createBatch call.now call.createdAt call.batchId call.template call.values
    (entries.map (fun entry => (entry.id, entry.task)))
    (call.reservation.map (fun (actor, route, key) => (actor, route, key, call.response))) =
      some (t.db, .created call.ids)

theorem returns_findReservation {call : BatchCall} {existing : Option IdempotencyRecord}
    (h : (findReservation call).Returns s existing t) : existing = call.reserved s.db ∧ t = s := by
  unfold findReservation at h
  unfold BatchCall.reserved
  split at h
  · rename_i keyless
    rw [keyless]
    exact Work.returns_pure h
  · rename_i actor route key keyed
    rw [keyed]
    obtain ⟨same, rfl⟩ := Work.returns_read h
    exact ⟨(Option.some.inj same).symm, rfl⟩

theorem returns_reserve {call : BatchCall} {done : Unit} (h : (reserve call).Returns s done t) :
    t = { s with db := { s.db with idempotency := s.db.idempotency ++ call.reserves } } := by
  unfold reserve at h
  unfold BatchCall.reserves
  split at h
  · rename_i keyless
    obtain ⟨_, rfl⟩ := Work.returns_pure h
    simp [keyless]
  · rename_i actor route key keyed
    obtain ⟨db, same, rfl⟩ := returns_onDb h
    cases same
    simp [keyed]

theorem returns_fillBatch {call : BatchCall} {done : Unit} (missing : call.reserved s.db = none)
    (h : (fillBatch call).Returns s done t) : ∃ entries, BatchStored call entries s t := by
  obtain ⟨_, u, opens, fills⟩ := Work.returns_bind h
  obtain ⟨opened, inserted, rfl⟩ := returns_onDb opens
  unfold insertBatch at inserted
  split at inserted
  · cases inserted
  · rename_i taken
    cases inserted
    obtain ⟨_, v, loops, announces⟩ := Work.returns_bind fills
    obtain ⟨entries, tasks, stored⟩ := returns_insertBatchTasks loops
    obtain ⟨_, w, announcing, reserves⟩ := Work.returns_bind announces
    obtain ⟨announced, same, rfl⟩ := returns_onDb announcing
    cases same
    have reserved := returns_reserve reserves
    subst reserved
    have ids : entries.map Entry.id = call.ids := by
      rw [BatchCall.ids, ← tasks, List.map_map]
      rfl
    have appended : Appended call.createdAt none entries s v :=
      ⟨stored.appended.rows, stored.appended.commits, stored.appended.draws, stored.appended.valid,
        stored.appended.receipts, stored.appended.acknowledgements⟩
    refine ⟨entries, tasks, appended.after _ rfl rfl, by simpa using taken, stored.batches, ?_, ?_, ?_⟩
    · rw [← ids]
      exact stored.batchTasks
    · simp [Db.addEvent, stored.idempotency]
    · have free : (s.db.batches.any fun batch => decide (batch.id = call.batchId)) = false := by
        simpa using taken
      have refines := stored.refines
      unfold BatchCall.reserved at missing
      unfold BatchCall.reserves
      cases reservation : call.reservation with
      | none =>
        simp only [Db.createBatch, Option.map_none, Option.bind_none, free, Bool.false_eq_true,
          if_false, Option.bind_eq_bind]
        refine (congrArg (fun filled => Option.bind filled _) refines).trans ?_
        simp [← ids, Db.addEvent]
      | some key =>
        obtain ⟨actor, route, key⟩ := key
        rw [reservation, Option.bind_some] at missing
        simp only [Db.createBatch, Option.map_some, Option.bind_some, missing, free, Bool.false_eq_true,
          if_false, Option.bind_eq_bind]
        refine (congrArg (fun filled => Option.bind filled _) refines).trans ?_
        simp [← ids, Db.addEvent]

theorem returns_batchTransaction {call : BatchCall} {previous : Option BatchResponse}
    (h : (batchTransaction call).Returns s previous t) :
    (∃ row, call.reserved s.db = some row ∧ previous = some row.response ∧ t = s) ∨
    call.reserved s.db = none ∧ previous = none ∧ ∃ entries, BatchStored call entries s t := by
  obtain ⟨existing, u, looks, rest⟩ := Work.returns_bind h
  obtain ⟨rfl, rfl⟩ := returns_findReservation looks
  cases found : call.reserved u.db with
  | some row =>
    rw [found] at rest
    obtain ⟨rfl, rfl⟩ := Work.returns_pure rest
    exact .inl ⟨row, rfl, rfl, rfl⟩
  | none =>
    rw [found] at rest
    obtain ⟨_, v, fills, last⟩ := Work.returns_bind rest
    obtain ⟨rfl, rfl⟩ := Work.returns_pure last
    exact .inr ⟨rfl, rfl, returns_fillBatch found fills⟩

theorem returns_readTasks {ids : List TaskId} {records : List TaskRecord}
    (h : (readTasks ids).Returns s records t) : t = s ∧ ids.mapM s.db.getTask = some records :=
  Work.each_reads h

theorem raises_readTasks {ids : List TaskId} (h : (readTasks ids).Raises s t) : t = s :=
  Work.each_reads_raises h

/-- A call that returns has found the stored response, or has stored its batch. -/
theorem returns_createBatch {call : BatchCall} {batchId : String} {records : List TaskRecord}
    (h : (createBatch call).Returns s (batchId, records) t) :
    (∃ row, call.reserved s.db = some row ∧ t = s ∧ batchId = row.response.batchId ∧
      row.response.taskIds.mapM s.db.getTask = some records) ∨
    call.reserved s.db = none ∧ (∃ entries, BatchStored call entries s t) ∧ batchId = call.batchId ∧
      call.ids.mapM t.db.getTask = some records := by
  obtain ⟨previous, u, commits, reads⟩ := Work.returns_bind h
  rcases returns_batchTransaction (Work.returns_transaction commits) with
    ⟨row, found, rfl, rfl⟩ | ⟨missing, rfl, entries, stored⟩
  · obtain ⟨found', v, reading, last⟩ := Work.returns_bind reads
    obtain ⟨rfl, listed⟩ := returns_readTasks reading
    obtain ⟨same, rfl⟩ := Work.returns_pure last
    cases same
    exact .inl ⟨row, found, rfl, rfl, listed⟩
  · obtain ⟨found', v, reading, last⟩ := Work.returns_bind reads
    obtain ⟨rfl, listed⟩ := returns_readTasks reading
    obtain ⟨same, rfl⟩ := Work.returns_pure last
    cases same
    exact .inr ⟨missing, ⟨entries, stored⟩, rfl, listed⟩

/-- A call that raises has changed nothing, or raised while it read back the batch it stored. -/
theorem raises_createBatch {call : BatchCall} (h : (createBatch call).Raises s t) :
    t = s ∨ call.reserved s.db = none ∧ ∃ entries, BatchStored call entries s t := by
  rcases Work.raises_bind h with rolled | ⟨previous, u, commits, reads⟩
  · exact .inl (Work.raises_transaction rolled)
  · have same : t = u := by
      cases previous with
      | some response =>
        rcases Work.raises_bind reads with reading | ⟨records, v, _, last⟩
        · exact raises_readTasks reading
        · exact (Work.not_raises_pure last).elim
      | none =>
        rcases Work.raises_bind reads with reading | ⟨records, v, _, last⟩
        · exact raises_readTasks reading
        · exact (Work.not_raises_pure last).elim
    subst same
    rcases returns_batchTransaction (Work.returns_transaction commits) with
      ⟨row, found, rfl, rfl⟩ | ⟨missing, rfl, stored⟩
    · exact .inl rfl
    · exact .inr ⟨missing, stored⟩

/-- What the migration of some legacy rows has changed. -/
structure Migrated (allocations : List (TaskId × Allocation)) (s t : Store) : Prop where
  commits : t.commits = s.commits ++ allocations.map (fun entry => .migration entry.1 entry.2)
  draws : Sequence.Draws s.metadata.get (allocations.map (fun entry => entry.2.draw)) t.metadata.get
  others : ∀ id, id ∉ allocations.map Prod.fst → t.db.getTask id = s.db.getTask id
  stored : ∀ id, (t.db.getTask id).isSome = (s.db.getTask id).isSome
  receipts : t.receipts = s.receipts
  idempotency : t.db.idempotency = s.db.idempotency
  batches : t.db.batches = s.db.batches
  batchTasks : t.db.batchTasks = s.db.batchTasks

theorem returns_migrateRows {clock : Nat → Int} {rows : List TaskRecord} {n : Nat} {done : Unit}
    (h : (migrateRows clock rows n).Returns s done t) :
    ∃ allocations : List (TaskId × Allocation), allocations.map Prod.fst = rows.map TaskRecord.id ∧
      Migrated allocations s t := by
  induction rows generalizing s t n with
  | nil =>
    obtain ⟨_, rfl⟩ := Work.returns_pure h
    exact ⟨[], rfl, by simp, .nil, fun _ _ => rfl, fun _ => rfl, rfl, rfl, rfl, rfl⟩
  | cons row rest ih =>
    obtain ⟨seed, u, draws, more⟩ := Work.returns_bind h
    obtain ⟨beyond, rfl⟩ := returns_allocateDeferred draws
    obtain ⟨⟨command, custom⟩, v, resolves, updates⟩ := Work.returns_bind more
    obtain ⟨_, rfl⟩ := Work.returns_given resolves
    obtain ⟨_, w, writes, later⟩ := Work.returns_bind updates
    have written := Work.returns_write writes
    cases written
    obtain ⟨allocations, ids, migrated⟩ := ih later
    refine ⟨(row.id, ⟨"seed", seedRequest, seed⟩) :: allocations, by simp [ids], ?_, ?_, ?_, ?_,
      migrated.receipts, migrated.idempotency, migrated.batches, migrated.batchTasks⟩
    · rw [migrated.commits]
      simp
    · refine .cons beyond ?_
      simpa only [Dict.get_set_update] using migrated.draws
    · intro id absent
      rw [List.map_cons, List.mem_cons, not_or] at absent
      rw [migrated.others id absent.2]
      simp [Db.getTask, freezeSeed, absent.1]
    · intro id
      rw [migrated.stored id]
      simp only [Db.getTask, freezeSeed, Tasks.get?_update]
      split <;> simp

/-- A migration freezes the queued rows that carry the legacy marker, or does nothing. -/
theorem migrateLegacySeeds_cases (clock : Nat → Int) (faults : Option Nat) (s : Store) :
    (migrateLegacySeeds clock faults s).state = s ∨
    ∃ allocations : List (TaskId × Allocation),
      allocations.map Prod.fst = (s.db.tasks.rows.filter legacySeed).map TaskRecord.id ∧
      Migrated allocations s (migrateLegacySeeds clock faults s).state := by
  rcases Work.returns_or_raises (migrateLegacySeeds clock) faults s with ⟨_, _, returns⟩ | ⟨_, raises⟩
  · obtain ⟨rows, u, selects, migrates⟩ := Work.returns_bind (Work.returns_transaction returns)
    obtain ⟨same, rfl⟩ := Work.returns_read selects
    cases same
    exact .inr (returns_migrateRows migrates)
  · exact .inl (Work.raises_transaction raises)

end Store
end LocalFlow
