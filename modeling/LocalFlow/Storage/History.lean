import LocalFlow.Api
import LocalFlow.Library.Run
import LocalFlow.Storage.Edits

/-! Every history of the database file: submissions of all routes with failing statements, starts of
the controller, and the lifecycle and retention of stored tasks. -/
namespace LocalFlow
open Faults Transition

/-- The result evaluation replaces the custom data, and only when a task ends. -/
def Field.isCustom : Field → Bool
  | .customJson _ => true
  | _ => false

/-- `faults` says which statement of the call fails. -/
inductive StoreAct where
  | post (faults : Option Nat) (actor : String) (key : Option String) (call : TaskCall)
  | template (faults : Option Nat) (expanded : Option (List TaskCall))
  | batch (faults : Option Nat) (call : Store.BatchCall)
  | restart (faults : Option Nat) (clock : Nat → Int)
  | transition (now : String) (id : TaskId) (expected : List TaskState) (state : TaskState)
      (fields : List Field) (override : Option TaskStatus)
      (plain : state.terminal = false → ∀ field ∈ fields, field.isCustom = false)
      (live : ∀ before ∈ expected, before.terminal = false)
  | noteBlocked (id : TaskId) (blockers keys : List String)
  | snapshotStop (id : TaskId) (strategy : StopStrategy)
  | setLogSize (id : TaskId) (size : Nat)
  | event (now : String) (id : Option TaskId) (kind : String)
  | purgeRetention (tasksBefore eventsBefore idempotencyBefore : String)
  | purgeTerminalTask (id : TaskId)

/-- The two passes of retention. -/
def StoreAct.deletes : StoreAct → Bool
  | .purgeRetention _ _ _ | .purgeTerminalTask _ => true
  | _ => false

/-- The keyed request a step serves. -/
def StoreAct.request : StoreAct → Option (String × String)
  | .post _ actor key _ => Store.requestKey actor key
  | _ => none

namespace Store

/-- The file after `purge_retention`, which forgets the receipts of both kinds of submission, or
rolls back. -/
def purged (store : Store) (tasksBefore eventsBefore idempotencyBefore : String) : Store :=
  match store.db.purgeRetention tasksBefore eventsBefore idempotencyBefore with
  | none => store
  | some (db, _) =>
    { store with
      db
      receipts := store.receipts.filter (fun row => ¬ row.createdAt < idempotencyBefore) }

def apply (store : Store) : StoreAct → Store
  | .post faults actor key call => (postTask actor key call faults store).state
  | .template faults expanded => (runTemplate expanded faults store).state
  | .batch faults call => (createBatch call faults store).state
  | .restart faults clock => (migrateLegacySeeds clock faults store).state
  | .transition now id expected state fields override _ _ =>
    { store with db := (store.db.transition now id expected state fields override).1 }
  | .noteBlocked id blockers keys => { store with db := store.db.noteBlocked id blockers keys }
  | .snapshotStop id strategy => { store with db := store.db.snapshotStop id strategy }
  | .setLogSize id size => { store with db := store.db.setLogSize id size }
  | .event now id kind => { store with db := store.db.addEvent now id kind }
  | .purgeRetention tasksBefore eventsBefore idempotencyBefore =>
    store.purged tasksBefore eventsBefore idempotencyBefore
  | .purgeTerminalTask id =>
    { store with db := ((store.db.purgeTerminalTask id).map Prod.fst).getD store.db }

/-- The steps of the store. -/
def Step (s : Store) (act : StoreAct) (t : Store) : Prop := t = s.apply act

/-- What a statement other than a submission or a migration leaves of a stored task. -/
structure Retains (old row : TaskRecord) : Prop where
  name : row.name = old.name
  workingDirectory : row.workingDirectory = old.workingDirectory
  command : row.command = old.command
  labels : row.labels = old.labels
  mutexKeys : row.mutexKeys = old.mutexKeys
  template : row.template = old.template
  pluginSnapshot : row.pluginSnapshot = old.pluginSnapshot
  custom : row.custom = old.custom ∨ old.state.terminal = false ∧ row.state.terminal = true
  stop : old.stop = none ∨ row.stop = old.stop
  live : row.state.terminal = false → old.state.terminal = false

theorem Retains.refl (row : TaskRecord) : Retains row row :=
  ⟨rfl, rfl, rfl, rfl, rfl, rfl, rfl, .inl rfl, .inr rfl, id⟩

/-- A change of stored rows that keeps every row and leaves the tables of the batches alone. -/
structure Revised (db next : Db) : Prop where
  rows : ∀ id row, next.getTask id = some row → ∃ old, db.getTask id = some old ∧ Retains old row
  stored : ∀ id, (next.getTask id).isSome = (db.getTask id).isSome
  batches : next.batches = db.batches
  batchTasks : next.batchTasks = db.batchTasks
  idempotency : next.idempotency = db.idempotency

/-- A step of a history that neither migrates nor deletes, made for a request. -/
inductive Edit (request : Option (String × String)) (s : Store) : Store → Prop where
  | task {now : String} {entry : Entry} {t : Store} : TaskStored now request entry s t →
      Edit request s t
  | batch {call : BatchCall} {entries : List Entry} {t : Store} :
      BatchStored call entries s t → Edit request s t
  | receipt {key : String × String} (taskId : TaskId) (createdAt : String) : request = some key →
      Edit request s (s.putReceipt key taskId createdAt)
  | update {db : Db} : Revised s.db db → Edit request s { s with db }

abbrev Edits (request : Option (String × String)) : Store → Store → Prop :=
  Relation.ReflTransGen (Edit request)

variable {s t : Store}

theorem purged_cases (s : Store) (tasksBefore eventsBefore idempotencyBefore : String) :
    s.purged tasksBefore eventsBefore idempotencyBefore = s ∨
    s.purged tasksBefore eventsBefore idempotencyBefore = { s with
      db := s.db.retained tasksBefore eventsBefore idempotencyBefore
      receipts := s.receipts.filter (fun row => ¬ row.createdAt < idempotencyBefore) } := by
  unfold purged
  rw [Db.purgeRetention_eq]
  by_cases few : (s.db.terminalTaskIdsBefore tasksBefore).length ≤ Db.variableLimit
  · rw [if_pos few]
    exact .inr rfl
  · rw [if_neg few]
    exact .inl rfl

/-- Deletions leave the other rows as they are, and nothing new. -/
structure Deleted (s t : Store) : Prop where
  rows : ∀ id row, t.db.getTask id = some row → s.db.getTask id = some row
  commits : t.commits = s.commits
  metadata : t.metadata = s.metadata

theorem edits_posted {call : TaskCall} {request : Option (String × String)}
    (posted : Posted call request s t) : Edits request s t := by
  cases posted with
  | nothing => exact .refl
  | task named stored => exact .single (.task stored)
  | receipt named stored keyed => exact .tail (.single (.task stored)) (.receipt _ _ keyed)

theorem returns_each_submit {calls : List TaskCall} {records : List TaskRecord}
    (h : (Work.each (fun call => submit call none) calls).Returns s records t) : Edits none s t := by
  induction calls generalizing s records with
  | nil =>
    obtain ⟨_, rfl⟩ := Work.returns_pure h
    exact .refl
  | cons call rest ih =>
    rw [Work.each_cons] at h
    obtain ⟨record, u, first, more⟩ := Work.returns_bind h
    obtain ⟨others, v, later, last⟩ := Work.returns_bind more
    obtain ⟨_, rfl⟩ := Work.returns_pure last
    obtain ⟨⟨entry, _, stored⟩, _⟩ := returns_submit first
    exact .head (.task stored) (ih later)

theorem raises_each_submit {calls : List TaskCall}
    (h : (Work.each (fun call => submit call none) calls).Raises s t) : Edits none s t := by
  induction calls generalizing s with
  | nil => exact (Work.not_raises_pure h).elim
  | cons call rest ih =>
    rw [Work.each_cons] at h
    rcases Work.raises_bind h with first | ⟨record, u, first, more⟩
    · rcases raises_submit first with rfl | ⟨entry, _, stored⟩
      · exact .refl
      · exact .single (.task stored)
    · obtain ⟨⟨entry, _, stored⟩, _⟩ := returns_submit first
      rcases Work.raises_bind more with later | ⟨others, v, _, last⟩
      · exact .head (.task stored) (ih later)
      · exact (Work.not_raises_pure last).elim

theorem edits_runTemplate (expanded : Option (List TaskCall)) (faults : Option Nat) (s : Store) :
    Edits none s (runTemplate expanded faults s).state := by
  rcases Work.returns_or_raises (runTemplate expanded) faults s with ⟨_, _, returns⟩ | ⟨_, raises⟩
  · obtain ⟨calls, u, expands, submits⟩ := Work.returns_bind returns
    obtain ⟨_, rfl⟩ := Work.returns_given expands
    obtain ⟨records, v, stores, last⟩ := Work.returns_bind submits
    obtain ⟨_, same⟩ := Work.returns_pure last
    rw [same]
    exact returns_each_submit stores
  · rcases Work.raises_bind raises with expands | ⟨calls, u, expands, submits⟩
    · rw [Work.raises_given expands]
    · obtain ⟨_, rfl⟩ := Work.returns_given expands
      rcases Work.raises_bind submits with stores | ⟨records, v, _, last⟩
      · exact raises_each_submit stores
      · exact (Work.not_raises_pure last).elim

theorem edits_createBatch (call : BatchCall) (faults : Option Nat) (s : Store) :
    Edits none s (createBatch call faults s).state := by
  rcases Work.returns_or_raises (createBatch call) faults s with ⟨_, _, returns⟩ | ⟨_, raises⟩
  · rcases returns_createBatch returns with ⟨row, _, same, _, _⟩ | ⟨_, ⟨entries, stored⟩, _, _⟩
    · rw [same]
    · exact .single (.batch stored)
  · rcases raises_createBatch raises with same | ⟨_, entries, stored⟩
    · rw [same]
    · exact .single (.batch stored)

/-- A change of columns no submission fills. -/
theorem revised_rows {db : Db} (id : TaskId) (set : TaskRecord → TaskRecord)
    (keeps : ∀ row, (set row).id = row.id) (retains : ∀ row, Retains row (set row)) :
    Revised db { db with tasks := db.tasks.update id set keeps } where
  rows := by
    intro other row found
    rw [Db.getTask, Tasks.get?_update] at found
    split at found
    · obtain ⟨old, was, rfl⟩ := Option.map_eq_some_iff.mp found
      exact ⟨old, was, retains old⟩
    · exact ⟨row, found, .refl row⟩
  stored := by
    intro other
    rw [Db.getTask, Tasks.get?_update]
    split
    · rw [Option.isSome_map]
      rfl
    · rfl
  batches := rfl
  batchTasks := rfl
  idempotency := rfl

theorem assign_custom (row : TaskRecord) {fields : List Field}
    (plain : ∀ field ∈ fields, field.isCustom = false) :
    (row.assign fields).custom = row.custom := by
  refine assign_frame row fields (fun r => r.custom) (fun _ field member => ?_)
  have other := plain field member
  cases field with
  | customJson custom => cases other
  | _ => rfl

theorem retains_moved (row : TaskRecord) {state : TaskState} {fields : List Field} (status : TaskStatus)
    (keeps : state.terminal = false → (row.assign fields).custom = row.custom)
    (live : row.state.terminal = false) : Retains row (row.moved state fields status) where
  name := assign_frame row fields (fun r => r.name) (fun _ field _ => by cases field <;> rfl)
  workingDirectory :=
    assign_frame row fields (fun r => r.workingDirectory) (fun _ field _ => by cases field <;> rfl)
  command := assign_frame row fields (fun r => r.command) (fun _ field _ => by cases field <;> rfl)
  labels := assign_frame row fields (fun r => r.labels) (fun _ field _ => by cases field <;> rfl)
  mutexKeys := assign_mutexKeys row fields
  template := assign_frame row fields (fun r => r.template) (fun _ field _ => by cases field <;> rfl)
  pluginSnapshot := assign_pluginSnapshot row fields
  custom := by
    cases going : state.terminal with
    | true => exact .inr ⟨live, going⟩
    | false => exact .inl (keeps going)
  stop := .inr (assign_stop row fields)
  live := fun _ => live

theorem revised_move {db : Db} (now : String) {id : TaskId} {state : TaskState} {fields : List Field}
    (status : TaskStatus) {row : TaskRecord} (found : db.getTask id = some row)
    (plain : state.terminal = false → ∀ field ∈ fields, field.isCustom = false)
    (live : row.state.terminal = false) : Revised db (db.move now id state fields status) where
  rows := by
    intro other new stored
    rw [Db.getTask_move] at stored
    split at stored
    · rename_i same
      subst same
      rw [found] at stored
      cases stored
      exact ⟨row, found, retains_moved row status (fun going => assign_custom row (plain going)) live⟩
    · exact ⟨new, stored, .refl new⟩
  stored := by
    intro other
    rw [Db.getTask_move]
    split
    · rw [Option.isSome_map]
    · rfl
  batches := rfl
  batchTasks := rfl
  idempotency := rfl

theorem deleted_tasks (ids : List TaskId) (db : Db) (receipts : List TaskReceipt)
    (rows : db.getTask = (s.db.tasks.delete ids).get?) : Deleted s { s with db, receipts } where
  rows := by
    intro id row found
    simp only [rows, Tasks.get?_delete] at found
    split at found
    · cases found
    · exact found
  commits := rfl
  metadata := rfl

theorem deleted_apply {act : StoreAct} (deletes : act.deletes = true) : Deleted s (s.apply act) := by
  cases act with
  | purgeRetention tasksBefore eventsBefore idempotencyBefore =>
    obtain same | same := purged_cases s tasksBefore eventsBefore idempotencyBefore
    · rw [apply, same]
      exact ⟨fun _ _ found => found, rfl, rfl⟩
    · rw [apply, same]
      unfold Db.retained
      dsimp only
      split
      · exact ⟨fun _ _ found => found, rfl, rfl⟩
      · exact deleted_tasks _ _ _ rfl
  | purgeTerminalTask id =>
    simp only [apply, Db.purgeTerminalTask_eq]
    cases s.db.getTask id with
    | none => exact ⟨fun _ _ found => found, rfl, rfl⟩
    | some row =>
      simp only [Option.map_some, Option.getD_some]
      split
      · exact deleted_tasks [id] _ _ rfl
      · exact ⟨fun _ _ found => found, rfl, rfl⟩
  | _ => cases deletes

/-- A start of the controller may migrate, retention deletes, and everything else edits. -/
theorem apply_cases (s : Store) (act : StoreAct) :
    (∃ faults clock, act = .restart faults clock) ∨ act.deletes = true ∨
      Edits act.request s (s.apply act) := by
  cases act with
  | post faults actor key call =>
    exact .inr (.inr (edits_posted (postTask_posted actor key call faults s)))
  | template faults expanded => exact .inr (.inr (edits_runTemplate expanded faults s))
  | batch faults call => exact .inr (.inr (edits_createBatch call faults s))
  | restart faults clock => exact .inl ⟨faults, clock, rfl⟩
  | transition now id expected state fields override plain live =>
    refine .inr (.inr ?_)
    rcases s.db.transition_cases now id expected state fields override with
      ⟨same, _⟩ | ⟨same, _⟩ | ⟨row, status, found, expects, moved⟩
    · simp only [apply, same]
      exact .refl
    · simp only [apply, same]
      exact .refl
    · simp only [apply, moved]
      exact .single (.update (revised_move now status found plain (live _ expects)))
  | noteBlocked id blockers keys =>
    refine .inr (.inr (.single
      (.update (revised_rows id _ (fun row => by split <;> rfl) (fun row => ?_)))))
    split
    · exact ⟨rfl, rfl, rfl, rfl, rfl, rfl, rfl, .inl rfl, .inr rfl, fun live => live⟩
    · exact .refl row
  | snapshotStop id strategy =>
    refine .inr (.inr (.single
      (.update (revised_rows id _ (fun row => by split <;> rfl) (fun row => ?_)))))
    split
    · rename_i unset
      have free : row.stop = none := Option.isNone_iff_eq_none.mp unset
      exact ⟨rfl, rfl, rfl, rfl, rfl, rfl, rfl, .inl rfl, .inl free, fun live => live⟩
    · exact .refl row
  | setLogSize id size =>
    refine .inr (.inr (.single (.update (revised_rows id (fun row => { row with logSize := size })
      (fun _ => rfl) (fun row => ?_)))))
    exact ⟨rfl, rfl, rfl, rfl, rfl, rfl, rfl, .inl rfl, .inr rfl, fun live => live⟩
  | event now id kind =>
    exact .inr (.inr (.single
      (.update ⟨fun _ row found => ⟨row, found, .refl row⟩, fun _ => rfl, rfl, rfl, rfl⟩)))
  | purgeRetention tasksBefore eventsBefore idempotencyBefore => exact .inr (.inl rfl)
  | purgeTerminalTask id => exact .inr (.inl rfl)

end Store
end LocalFlow
