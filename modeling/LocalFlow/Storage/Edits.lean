import LocalFlow.Storage.Create
import LocalFlow.Storage.Retention
import Mathlib.Logic.Relation
import Mathlib.Data.List.Chain

/-! Everything a statement of the store can do to the database, and what survives all of it.
Every operation of the service is a sequence of `Edit`s; the laws of the stored tasks are proved
once for a single edit. -/
namespace LocalFlow

/-- The state changes some caller of `transition` asks for. -/
def TaskState.mayBecome : TaskState → TaskState → Bool
  | .queued, next => next = .starting || next = .cancelled
  | .starting, next => next ≠ .queued && next ≠ .starting
  | .running, next | .stopping, next => next = .stopping || next.terminal
  | _, _ => false

theorem TaskState.mayBecome_not_terminal {state next : TaskState}
    (legal : state.mayBecome next = true) : state.terminal = false := by
  cases state <;> simp_all [mayBecome, terminal]

theorem TaskState.mayBecome_not_queued {state next : TaskState}
    (legal : state.mayBecome next = true) : next ≠ .queued := by
  rintro rfl
  cases state <;> simp_all [mayBecome, terminal]

def isLifecycle (kind : String) : Bool :=
  TaskState.all.any (fun state => kind = lifecycleKind state)

/-- The end of a task is stamped exactly when it ends, only a running task gets its executor
reference, and the custom data is replaced only by the end. -/
structure Stamps (state : TaskState) (fields : List Field) : Prop where
  ends : state.terminal = true → ∀ row : TaskRecord, (row.assign fields).endedAt.isSome
  keeps : state.terminal = false → ∀ row : TaskRecord, (row.assign fields).endedAt = row.endedAt
  reference : state ≠ .running → ∀ row : TaskRecord,
    (row.assign fields).executorRef = row.executorRef
  custom : state.terminal = false → ∀ row : TaskRecord, (row.assign fields).custom = row.custom

/-- Columns no statement other than a transition writes. -/
structure Frame (set : TaskRecord → TaskRecord) : Prop where
  id : ∀ row, (set row).id = row.id
  state : ∀ row, (set row).state = row.state
  createdAt : ∀ row, (set row).createdAt = row.createdAt
  mutexKeys : ∀ row, (set row).mutexKeys = row.mutexKeys
  endedAt : ∀ row, (set row).endedAt = row.endedAt
  executorRef : ∀ row, (set row).executorRef = row.executorRef
  pluginSnapshot : ∀ row, (set row).pluginSnapshot = row.pluginSnapshot
  submitted : ∀ row, ∃ stop, (set row).toTaskCreate = { row.toTaskCreate with stop } ∧
    (row.stop = none ∨ stop = row.stop)

/-- No active task holds a key of the task. -/
def Db.Free (db : Db) (row : TaskRecord) : Prop :=
  ∀ other holder, db.getTask other = some holder → holder.state.active = true →
    List.Disjoint row.mutexKeys holder.mutexKeys

/-- One statement. `accepts` are the drafts that may be submitted. -/
inductive Edit (accepts : TaskCreate → Prop) : Db → Db → Prop where
  | event {db : Db} {now : String} {taskId : Option TaskId} {kind : String}
      (quiet : isLifecycle kind = false) : Edit accepts db (db.addEvent now taskId kind)
  | submit {db next : Db} {now createdAt : String} {id : TaskId} {draft : TaskCreate}
      (accepted : accepts draft) (unused : db.written id = [])
      (inserted : db.insertTask now createdAt id draft = some next) : Edit accepts db next
  | move {db : Db} {now : String} {id : TaskId} {row : TaskRecord} {state : TaskState}
      {fields : List Field} (status : TaskStatus) (found : db.getTask id = some row)
      (legal : row.state.mayBecome state = true) (stamps : Stamps state fields)
      (free : state = .starting → db.Free row) : Edit accepts db (db.move now id state fields status)
  | note {db : Db} {id : TaskId} {set : TaskRecord → TaskRecord} (frame : Frame set) :
      Edit accepts db { db with tasks := db.tasks.update id set frame.id }
  | delete {db : Db} {ids : List TaskId} (ended : ∀ id ∈ ids, ∀ row, db.getTask id = some row →
      row.state.terminal = true) : Edit accepts db (db.withoutTasks ids)
  | forget {db : Db} (drop : EventRecord → Bool) :
      Edit accepts db { db with events := db.events.delete drop }
  | tables {db : Db} (acknowledgements : List Acknowledgement) (batches : List BatchRecord)
      (batchTasks : List BatchTask) (idempotency : List IdempotencyRecord) :
      Edit accepts db { db with acknowledgements, batches, batchTasks, idempotency }

/-- A sequence of edits. -/
abbrev Changes (accepts : TaskCreate → Prop) : Db → Db → Prop :=
  Relation.ReflTransGen (Edit accepts)

/-- Edits other than submissions. -/
abbrev Updates : Db → Db → Prop := Changes (fun _ => False)

variable {accepts : TaskCreate → Prop}
variable {db next : Db} {now : String} {id other : TaskId} {row : TaskRecord}

namespace Db

@[simp] theorem written_addEvent (taskId : Option TaskId) (kind : String) :
    (db.addEvent now taskId kind).written id = db.written id := rfl

@[simp] theorem written_move (state : TaskState) (fields : List Field) (status : TaskStatus) :
    (db.move now id state fields status).written other =
      if other = id then db.written other ++ [state] else db.written other := by
  by_cases same : other = id
  · subst same
    simp [move, written, addEvent]
  · simp [move, written, addEvent, same, Ne.symm same]

theorem written_insertTask (h : db.insertTask now createdAt id draft = some next) :
    next.written other =
      if other = id then db.written other ++ [.queued] else db.written other := by
  obtain ⟨status, tasks, -, -, rfl⟩ := insertTask_some h
  by_cases same : other = id
  · subst same
    simp [written, addEvent]
  · simp [written, addEvent, same, Ne.symm same]

@[simp] theorem written_withoutTasks (ids : List TaskId) :
    (db.withoutTasks ids).written id = db.written id := rfl

end Db

/-- The history of a task: it starts queued and moves as `mayBecome` allows. -/
structure Lifecycle (states : List TaskState) : Prop where
  starts : states.head? = some .queued
  moves : states.IsChain (fun a b => a.mayBecome b = true)

/-- What the row, the history and the events of one task say together. -/
structure Agrees (db : Db) (id : TaskId) : Prop where
  history : db.written id ≠ [] → Lifecycle (db.written id)
  current : ∀ row, db.getTask id = some row → (db.written id).getLast? = some row.state
  removed : db.getTask id = none → ∀ state, (db.written id).getLast? = some state →
    state.terminal = true
  ended : ∀ row, db.getTask id = some row → (row.endedAt.isSome = true ↔ row.state.terminal = true)
  events : (∀ event ∈ db.events.deleted, event.taskId ≠ some id) →
    (db.events.kindsOf id).filter isLifecycle = (db.written id).map lifecycleKind

theorem isLifecycle_kind (state : TaskState) : isLifecycle (lifecycleKind state) = true :=
  List.any_eq_true.mpr ⟨state, state.mem_all, by simp⟩

theorem agrees_empty (id : TaskId) : Agrees .empty id where
  history none := absurd rfl none
  current row found := by cases found
  removed _ state last := by cases last
  ended row found := by cases found
  events _ := rfl

/-- Only the rows, the history and the events of a task decide whether they agree. -/
theorem Agrees.congr (agrees : Agrees db id) (rows : next.getTask id = db.getTask id)
    (written : next.written id = db.written id)
    (deleted : ∀ event ∈ db.events.deleted, event ∈ next.events.deleted)
    (kinds : (∀ event ∈ next.events.deleted, event.taskId ≠ some id) →
      (next.events.kindsOf id).filter isLifecycle = (db.events.kindsOf id).filter isLifecycle) :
    Agrees next id where
  history nonempty := by
    rw [written] at nonempty ⊢
    exact agrees.history nonempty
  current row found := by
    rw [written]
    exact agrees.current row (rows ▸ found)
  removed gone := by
    rw [written]
    exact agrees.removed (rows ▸ gone)
  ended row found := agrees.ended row (rows ▸ found)
  events kept := by
    rw [written, kinds kept]
    exact agrees.events (fun event member => kept event (deleted event member))

theorem kindsOf_delete {events : Events} {drop : EventRecord → Bool}
    (others : ∀ event ∈ (events.delete drop).deleted, event.taskId ≠ some id) :
    (events.delete drop).kindsOf id = events.kindsOf id := by
  unfold Events.kindsOf Events.delete
  simp only [List.filter_filter]
  congr 1
  refine List.filter_congr (fun event member => ?_)
  by_cases mine : event.taskId = some id
  · have kept : drop event = false := by
      by_contra dropped
      exact others event (List.mem_append_right _ (List.mem_filter.mpr
        ⟨member, by simpa using dropped⟩)) mine
    simp [mine, kept]
  · simp [mine]

theorem agrees_forget (agrees : Agrees db id) (drop : EventRecord → Bool) :
    Agrees { db with events := db.events.delete drop } id :=
  agrees.congr rfl rfl (fun _ member => List.mem_append_left _ member)
    (fun others => congrArg _ (kindsOf_delete others))

theorem agrees_move (agrees : Agrees db id) (found : db.getTask id = some row)
    (legal : row.state.mayBecome state = true) (stamps : Stamps state fields)
    (status : TaskStatus) : Agrees (db.move now id state fields status) id := by
  have last := agrees.current row found
  have nonempty : db.written id ≠ [] := fun none => by simp [none] at last
  have old := agrees.history nonempty
  constructor
  · intro _
    rw [Db.written_move, if_pos rfl]
    constructor
    · rw [List.head?_append_of_ne_nil _ nonempty]
      exact old.starts
    · rw [List.isChain_append]
      refine ⟨old.moves, .singleton _, ?_⟩
      intro before isLast after isNew
      rw [last, Option.mem_some_iff] at isLast
      rw [List.head?_cons, Option.mem_some_iff] at isNew
      exact isLast ▸ isNew ▸ legal
  · intro moved gotten
    rw [Db.getTask_move, if_pos rfl, found, Option.map_some, Option.some.injEq] at gotten
    subst gotten
    simp
  · intro gone
    simp [found] at gone
  · intro moved gotten
    rw [Db.getTask_move, if_pos rfl, found, Option.map_some, Option.some.injEq] at gotten
    subst gotten
    change (row.assign fields).endedAt.isSome = true ↔ state.terminal = true
    cases terminal : state.terminal with
    | true => simpa using stamps.ends terminal row
    | false =>
      rw [stamps.keeps terminal row, agrees.ended row found,
        TaskState.mayBecome_not_terminal legal]
  · intro kept
    have earlier := agrees.events kept
    rw [Db.written_move, if_pos rfl, List.map_append, ← earlier]
    simp [Db.move, Db.addEvent, isLifecycle_kind]

theorem agrees_submit (agrees : Agrees db id) (unused : db.written id = [])
    (inserted : db.insertTask now createdAt id draft = some next) : Agrees next id := by
  obtain ⟨_, status, rows⟩ := Db.getTask_insertTask inserted
  have written : next.written id = [.queued] := by
    rw [Db.written_insertTask inserted, if_pos rfl, unused]
    rfl
  constructor
  · intro _
    rw [written]
    exact ⟨rfl, .singleton _⟩
  · intro row found
    rw [rows, if_pos rfl] at found
    cases found
    rw [written]
    rfl
  · intro gone
    simp [rows] at gone
  · intro row found
    rw [rows, if_pos rfl] at found
    cases found
    simp [TaskRecord.fresh, TaskState.terminal]
  · intro kept
    have events : next.events = db.events.append now (some id) (lifecycleKind .queued) := by
      obtain ⟨_, _, _, _, rfl⟩ := Db.insertTask_some inserted
      rfl
    have earlier := agrees.events (fun event member => kept event (by rw [events]; exact member))
    rw [written, events, Events.kindsOf_append, if_pos rfl, List.filter_append, earlier, unused]
    simp [isLifecycle_kind]

/-- An edit of one task keeps the agreement of every other one. -/
theorem agrees_apart (agrees : Agrees db other) (apart : other ≠ id)
    (rows : next.getTask other = db.getTask other) (written : next.written other = db.written other)
    (events : next.events = db.events.append now (some id) kind) : Agrees next other := by
  refine agrees.congr rows written (fun event member => by rw [events]; exact member) (fun _ => ?_)
  rw [events, Events.kindsOf_append, if_neg (fun same => apart (Option.some.inj same).symm)]

theorem Edit.agrees (edit : Edit accepts db next) (id : TaskId) (agrees : Agrees db id) :
    Agrees next id := by
  cases edit with
  | event quiet =>
    refine agrees.congr rfl rfl (fun _ member => member) (fun _ => ?_)
    simp only [Db.addEvent, Events.kindsOf_append]
    split <;> simp [quiet]
  | @submit _ now createdAt target draft _ unused inserted =>
    obtain rfl | apart := eq_or_ne id target
    · exact agrees_submit agrees unused inserted
    · obtain ⟨_, status, rows⟩ := Db.getTask_insertTask inserted
      obtain ⟨_, _, _, _, rfl⟩ := Db.insertTask_some inserted
      refine agrees_apart agrees apart (by rw [rows, if_neg apart]) ?_ rfl
      rw [Db.written_insertTask inserted, if_neg apart]
  | @move now target row state fields status found legal stamps free =>
    obtain rfl | apart := eq_or_ne id target
    · exact agrees_move agrees found legal stamps status
    · exact agrees_apart agrees apart (by simp [apart]) (by simp [apart]) rfl
  | @note target set frame =>
    obtain rfl | apart := eq_or_ne id target
    · have rows : ∀ moved, ({ db with tasks := db.tasks.update id set frame.id } : Db).getTask id =
          some moved → ∃ row, db.getTask id = some row ∧ set row = moved := by
        intro moved gotten
        simpa [Db.getTask] using gotten
      constructor
      · exact agrees.history
      · intro moved gotten
        obtain ⟨row, found, rfl⟩ := rows moved gotten
        rw [frame.state]
        exact agrees.current row found
      · intro gone
        exact agrees.removed (by simpa [Db.getTask] using gone)
      · intro moved gotten
        obtain ⟨row, found, rfl⟩ := rows moved gotten
        rw [frame.state, frame.endedAt]
        exact agrees.ended row found
      · exact agrees.events
    · exact agrees.congr (by simp [Db.getTask, apart]) rfl (fun _ member => member) (fun _ => rfl)
  | @delete ids ended =>
    have forgotten := agrees_forget agrees
      (fun event => event.taskId.any (fun id => id ∈ ids))
    by_cases chosen : id ∈ ids
    · constructor
      · exact agrees.history
      · intro row found
        simp [chosen] at found
      · intro _ state last
        rw [Db.written_withoutTasks] at last
        cases found : db.getTask id with
        | none => exact agrees.removed found state last
        | some row =>
          rw [agrees.current row found, Option.some.injEq] at last
          exact last ▸ ended id chosen row found
      · intro row found
        simp [chosen] at found
      · exact forgotten.events
    · exact forgotten.congr (by simp [chosen]; rfl) rfl (fun _ member => member) (fun _ => rfl)
  | forget drop => exact agrees_forget agrees drop
  | tables => exact ⟨agrees.history, agrees.current, agrees.removed, agrees.ended, agrees.events⟩

theorem Changes.agrees (changes : Changes accepts db next) (id : TaskId) (agrees : Agrees db id) :
    Agrees next id := by
  induction changes with
  | refl => exact agrees
  | tail _ edit ih => exact edit.agrees id ih

/-- History only grows. -/
theorem Edit.written_grows (edit : Edit accepts db next) (id : TaskId) :
    db.written id <+: next.written id := by
  cases edit with
  | event => exact List.prefix_rfl
  | submit _ _ inserted =>
    rw [Db.written_insertTask inserted]
    split
    · exact List.prefix_append _ _
    · exact List.prefix_rfl
  | move =>
    rw [Db.written_move]
    split
    · exact List.prefix_append _ _
    · exact List.prefix_rfl
  | note | delete | forget | tables => exact List.prefix_rfl

theorem Changes.written_grows (changes : Changes accepts db next) (id : TaskId) :
    db.written id <+: next.written id := by
  induction changes with
  | refl => exact List.prefix_rfl
  | tail _ edit ih => exact ih.trans (edit.written_grows id)

/-- Active tasks pairwise share no mutex key. -/
def Exclusive (db : Db) : Prop :=
  ∀ a b first second, a ≠ b → db.getTask a = some first → db.getTask b = some second →
    first.state.active = true → second.state.active = true →
    List.Disjoint first.mutexKeys second.mutexKeys

/-- An active row after an edit was active with the same keys before it, or was just admitted. -/
theorem Edit.active_row (edit : Edit accepts db next) {moved : TaskRecord}
    (found : next.getTask id = some moved) (active : moved.state.active = true) :
    (∃ row, db.getTask id = some row ∧ row.state.active = true ∧ row.mutexKeys = moved.mutexKeys) ∨
    ∃ row, db.getTask id = some row ∧ db.Free row ∧ row.mutexKeys = moved.mutexKeys ∧
      ∀ other, other ≠ id → next.getTask other = db.getTask other := by
  cases edit with
  | event | forget | tables => exact .inl ⟨moved, found, active, rfl⟩
  | submit _ _ inserted =>
    obtain ⟨_, _, rows⟩ := Db.getTask_insertTask inserted
    rw [rows] at found
    split at found
    · cases found
      simp [TaskRecord.fresh, TaskState.active] at active
    · exact .inl ⟨moved, found, active, rfl⟩
  | @move now target row state fields status stored legal stamps free =>
    rw [Db.getTask_move] at found
    split at found
    · rename_i same
      subst same
      rw [stored, Option.map_some, Option.some.injEq] at found
      subst found
      cases before : row.state.active with
      | true => exact .inl ⟨row, stored, before, by simp⟩
      | false =>
        have admitted : state = .starting := by
          rw [moved_state] at active
          revert legal active before
          cases row.state <;> cases state <;> simp [TaskState.active, TaskState.mayBecome,
            TaskState.terminal]
        exact .inr ⟨row, stored, free admitted, by simp, fun other apart => by simp [apart]⟩
    · exact .inl ⟨moved, found, active, rfl⟩
  | @note target set frame =>
    have rows : ({ db with tasks := db.tasks.update target set frame.id } : Db).getTask id =
        if id = target then (db.getTask id).map set else db.getTask id :=
      Tasks.get?_update set frame.id
    rw [rows] at found
    split at found
    · obtain ⟨row, stored, rfl⟩ := Option.map_eq_some_iff.mp found
      rw [frame.state] at active
      exact .inl ⟨row, stored, active, (frame.mutexKeys row).symm⟩
    · exact .inl ⟨moved, found, active, rfl⟩
  | @delete ids ended =>
    rw [Db.getTask_withoutTasks] at found
    split at found
    · cases found
    · exact .inl ⟨moved, found, active, rfl⟩

theorem Edit.exclusive (edit : Edit accepts db next) (exclusive : Exclusive db) : Exclusive next := by
  intro a b first second apart foundA foundB activeA activeB
  obtain ⟨rowA, oldA, wasA, keysA⟩ | ⟨rowA, oldA, freeA, keysA, restA⟩ :=
    edit.active_row foundA activeA
  · obtain ⟨rowB, oldB, wasB, keysB⟩ | ⟨rowB, oldB, freeB, keysB, restB⟩ :=
      edit.active_row foundB activeB
    · rw [← keysA, ← keysB]
      exact exclusive a b rowA rowB apart oldA oldB wasA wasB
    · rw [← keysA, ← keysB]
      exact List.disjoint_left.mpr (fun _ inA inB => freeB a rowA oldA wasA inB inA)
  · rw [restA b (Ne.symm apart)] at foundB
    rw [← keysA]
    exact freeA b second foundB activeB

theorem Changes.exclusive (changes : Changes accepts db next) (exclusive : Exclusive db) :
    Exclusive next := by
  induction changes with
  | refl => exact exclusive
  | tail _ edit ih => exact edit.exclusive ih

/-- Where a stored row comes from: a submission, or the row before it. -/
theorem Edit.origin (edit : Edit accepts db next) {new : TaskRecord}
    (found : next.getTask id = some new) :
    (∃ draft createdAt status, accepts draft ∧ db.getTask id = none ∧
      new = TaskRecord.fresh id draft createdAt status) ∨
    ∃ old, db.getTask id = some old ∧ (new = old ∨ (∃ set, Frame set ∧ new = set old) ∨
      ∃ state fields status, old.state.mayBecome state = true ∧ Stamps state fields ∧
        new = old.moved state fields status) := by
  cases edit with
  | event | forget | tables => exact .inr ⟨new, found, .inl rfl⟩
  | @submit _ _ createdAt target draft accepted _ inserted =>
    obtain ⟨missing, status, rows⟩ := Db.getTask_insertTask inserted
    rw [rows] at found
    split at found
    · rename_i same
      cases found
      exact .inl ⟨draft, createdAt, status, accepted, same ▸ missing, same ▸ rfl⟩
    · exact .inr ⟨new, found, .inl rfl⟩
  | @move _ target row state fields status stored legal stamps _ =>
    rw [Db.getTask_move] at found
    split at found
    · rename_i same
      rw [same, stored, Option.map_some, Option.some.injEq] at found
      exact .inr ⟨row, same ▸ stored, .inr (.inr ⟨state, fields, status, legal, stamps, found.symm⟩)⟩
    · exact .inr ⟨new, found, .inl rfl⟩
  | @note target set frame =>
    have rows : ({ db with tasks := db.tasks.update target set frame.id } : Db).getTask id =
        if id = target then (db.getTask id).map set else db.getTask id :=
      Tasks.get?_update set frame.id
    rw [rows] at found
    split at found
    · obtain ⟨old, stored, rfl⟩ := Option.map_eq_some_iff.mp found
      exact .inr ⟨old, stored, .inr (.inl ⟨set, frame, rfl⟩)⟩
    · exact .inr ⟨new, found, .inl rfl⟩
  | delete ids =>
    rw [Db.getTask_withoutTasks] at found
    split at found
    · cases found
    · exact .inr ⟨new, found, .inl rfl⟩

/-- Every stored task can be shown in every state. -/
def Db.Displays (db : Db) : Prop :=
  ∀ id row, db.getTask id = some row → Displayable row.pluginSnapshot

theorem Edit.displays (edit : Edit accepts db next)
    (shown : ∀ draft, accepts draft → Displayable draft.pluginSnapshot) (displays : db.Displays) :
    next.Displays := by
  intro id new found
  obtain ⟨draft, _, _, accepted, _, rfl⟩ | ⟨old, stored, same | ⟨set, frame, rfl⟩ |
    ⟨_, _, _, _, _, rfl⟩⟩ := edit.origin found
  · exact shown draft accepted
  · exact same ▸ displays id old stored
  · exact frame.pluginSnapshot old ▸ displays id old stored
  · rw [moved_pluginSnapshot]
    exact displays id old stored

theorem Changes.displays (changes : Changes accepts db next)
    (shown : ∀ draft, accepts draft → Displayable draft.pluginSnapshot) (displays : db.Displays) :
    next.Displays := by
  induction changes with
  | refl => exact displays
  | tail _ edit ih => exact edit.displays shown ih

/-- A task that has not been reported running has no executor reference. -/
def Db.Unreferenced (db : Db) : Prop :=
  ∀ id row, db.getTask id = some row → row.state = .queued ∨ row.state = .starting →
    row.executorRef = none

theorem Edit.unreferenced (edit : Edit accepts db next) (before : db.Unreferenced) :
    next.Unreferenced := by
  intro id new found early
  obtain ⟨draft, _, _, _, _, rfl⟩ | ⟨old, stored, rfl | ⟨set, frame, rfl⟩ |
    ⟨state, fields, status, legal, stamps, rfl⟩⟩ := edit.origin found
  · rfl
  · exact before id new stored early
  · rw [frame.state] at early
    exact (frame.executorRef old).trans (before id old stored early)
  · have running : state ≠ .running := by
      rintro rfl
      simp at early
    have queued : old.state = .queued := by
      rw [moved_state] at early
      obtain rfl | rfl := early <;> revert legal <;> cases old.state <;>
        simp [TaskState.mayBecome, TaskState.terminal]
    exact (stamps.reference running old).trans (before id old stored (.inl queued))

theorem Changes.unreferenced (changes : Changes accepts db next) (before : db.Unreferenced) :
    next.Unreferenced := by
  induction changes with
  | refl => exact before
  | tail _ edit ih => exact edit.unreferenced ih

/-- Without submissions no row appears. -/
theorem Updates.no_row (updates : Updates db next) (missing : db.getTask id = none) :
    next.getTask id = none := by
  induction updates with
  | refl => exact missing
  | tail _ edit ih =>
    cases found : Db.getTask _ id with
    | none => rfl
    | some new =>
      obtain ⟨_, _, _, impossible, _⟩ | ⟨old, stored, _⟩ := edit.origin found
      · exact absurd impossible not_false
      · rw [ih] at stored
        cases stored

theorem Updates.changes (updates : Updates db next) : Changes accepts db next :=
  Relation.ReflTransGen.mono (fun _ _ edit => by
    cases edit with
    | event quiet => exact .event quiet
    | submit accepted => exact absurd accepted not_false
    | move status found legal stamps free => exact .move status found legal stamps free
    | note frame => exact .note frame
    | delete ended => exact .delete ended
    | forget drop => exact .forget drop
    | tables => exact .tables _ _ _ _) _ _ updates

end LocalFlow
