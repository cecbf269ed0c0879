import LocalFlow.Storage.Submissions

/-! The submission routes of `api.py` that store tasks one by one. A handler awaits nothing between
its store calls, so only a failure or a crash separates them. -/
namespace LocalFlow
open Faults

/-- One `tasks.submit`: the draft `_prepare_draft` returns (`none` when it raises), and the clock
readings, the id and the time of the call. -/
structure TaskCall where
  prepared : Option TaskDraft
  now : String
  clock : Nat → Int
  id : TaskId
  receivedAt : String

namespace Store

/-- `TaskService.submit`. -/
def submit (call : TaskCall) (request : Option (String × String)) : Work Store TaskRecord := do
  let draft ← Work.given call.prepared
  createTask call.now call.clock call.id draft request

/-- An absent or empty header is no key. -/
def requestKey (actor : String) (key : Option String) : Option (String × String) :=
  key.bind (fun text => if text = "" then none else some (actor, text))

/-- `idempotency_get` for the route. -/
def receipt (store : Store) (request : String × String) : Option TaskReceipt :=
  store.receipts.find? (fun row => row.actor = request.1 ∧ row.key = request.2)

/-- `idempotency_put`: `INSERT OR IGNORE`. -/
def putReceipt (request : String × String) (taskId : TaskId) (createdAt : String)
    (store : Store) : Store :=
  if (store.receipt request).isSome then store
  else { store with receipts := store.receipts ++ [⟨request.1, request.2, taskId, createdAt⟩] }

/-- `POST /api/v1/tasks` without a key. -/
def postKeyless (call : TaskCall) : Work Store TaskId := do
  let record ← submit call none
  pure record.id

/-- `POST /api/v1/tasks` with a key: three calls of the store. -/
def postKeyed (request : String × String) (call : TaskCall) : Work Store TaskId := do
  let previous ← Work.read (fun store : Store => some (store.receipt request))
  match previous with
  | some row => pure row.taskId
  | none => do
    let record ← submit call (some request)
    Work.write (fun store : Store => some (store.putReceipt request record.id call.receivedAt))
    pure record.id

/-- `POST /api/v1/tasks`, with the task id it answers. -/
def postTask (actor : String) (key : Option String) (call : TaskCall) : Work Store TaskId :=
  match requestKey actor key with
  | none => postKeyless call
  | some request => postKeyed request call

/-- `POST /api/v1/templates/{name}/runs`. `expanded` is what `plugins.expand` returns. -/
def runTemplate (expanded : Option (List TaskCall)) : Work Store (List TaskId) := do
  let calls ← Work.given expanded
  let records ← Work.each (fun call => submit call none) calls
  pure (records.map TaskRecord.id)

variable {s t : Store}

theorem returns_submit {call : TaskCall} {request : Option (String × String)} {record : TaskRecord}
    (h : (submit call request).Returns s record t) :
    (∃ entry : Entry, entry.id = call.id ∧ TaskStored call.now request entry s t) ∧
      t.db.getTask call.id = some record := by
  obtain ⟨draft, u, prepares, creates⟩ := Work.returns_bind h
  obtain ⟨_, rfl⟩ := Work.returns_given prepares
  obtain ⟨⟨entry, named, _, stored⟩, found⟩ := returns_createTask creates
  exact ⟨⟨entry, named, stored⟩, found⟩

theorem raises_submit {call : TaskCall} {request : Option (String × String)}
    (h : (submit call request).Raises s t) :
    t = s ∨ ∃ entry : Entry, entry.id = call.id ∧ TaskStored call.now request entry s t := by
  rcases Work.raises_bind h with unprepared | ⟨draft, u, prepares, creates⟩
  · exact .inl (Work.raises_given unprepared)
  · obtain ⟨_, rfl⟩ := Work.returns_given prepares
    rcases raises_createTask creates with same | ⟨entry, named, _, stored⟩
    · exact .inl same
    · exact .inr ⟨entry, named, stored⟩

/-- What a request may leave: nothing new, its task, or its task with the receipt. -/
inductive Posted (call : TaskCall) (request : Option (String × String)) (s : Store) : Store → Prop where
  | nothing : Posted call request s s
  | task {entry : Entry} {t : Store} : entry.id = call.id → TaskStored call.now request entry s t →
      Posted call request s t
  | receipt {entry : Entry} {t : Store} {key : String × String} : entry.id = call.id →
      TaskStored call.now request entry s t → request = some key →
      Posted call request s (t.putReceipt key call.id call.receivedAt)

theorem posted_of_raises {call : TaskCall} {request : Option (String × String)}
    (h : (submit call request).Raises s t) : Posted call request s t := by
  rcases raises_submit h with rfl | ⟨entry, named, stored⟩
  · exact .nothing
  · exact .task named stored

theorem getTask_id {id : TaskId} {record : TaskRecord} (found : s.db.getTask id = some record) :
    record.id = id := (Tasks.get?_mem found).2

theorem postKeyless_posted (call : TaskCall) (faults : Option Nat) (s : Store) :
    Posted call none s (postKeyless call faults s).state := by
  rcases Work.returns_or_raises (postKeyless call) faults s with ⟨_, _, returns⟩ | ⟨_, raises⟩
  · obtain ⟨record, u, submits, last⟩ := Work.returns_bind returns
    obtain ⟨_, same⟩ := Work.returns_pure last
    obtain ⟨⟨entry, named, stored⟩, _⟩ := returns_submit submits
    rw [same]
    exact .task named stored
  · rcases Work.raises_bind raises with submits | ⟨record, u, _, last⟩
    · exact posted_of_raises submits
    · exact (Work.not_raises_pure last).elim

theorem postKeyed_returns {request : String × String} {call : TaskCall} {taskId : TaskId}
    (h : (postKeyed request call).Returns s taskId t) :
    (∃ row, s.receipt request = some row ∧ taskId = row.taskId ∧ t = s) ∨
    s.receipt request = none ∧ ∃ entry u, entry.id = call.id ∧
      TaskStored call.now (some request) entry s u ∧
        t = u.putReceipt request call.id call.receivedAt := by
  obtain ⟨previous, u, looks, rest⟩ := Work.returns_bind h
  obtain ⟨same, rfl⟩ := Work.returns_read looks
  cases found : u.receipt request with
  | some row =>
    rw [found] at same
    cases same
    obtain ⟨rfl, rfl⟩ := Work.returns_pure rest
    exact .inl ⟨row, rfl, rfl, rfl⟩
  | none =>
    rw [found] at same
    cases same
    obtain ⟨record, v, submits, puts⟩ := Work.returns_bind rest
    obtain ⟨⟨entry, named, stored⟩, read⟩ := returns_submit submits
    obtain ⟨_, w, writes, last⟩ := Work.returns_bind puts
    have written := Work.returns_write writes
    cases written
    obtain ⟨_, rfl⟩ := Work.returns_pure last
    rw [getTask_id read]
    exact .inr ⟨rfl, entry, v, named, stored, rfl⟩

theorem postKeyed_raises {request : String × String} {call : TaskCall}
    (h : (postKeyed request call).Raises s t) :
    t = s ∨ s.receipt request = none ∧ ∃ entry, entry.id = call.id ∧
      TaskStored call.now (some request) entry s t := by
  rcases Work.raises_bind h with looks | ⟨previous, u, looks, rest⟩
  · exact .inl (Work.raises_read looks)
  · obtain ⟨same, rfl⟩ := Work.returns_read looks
    cases found : u.receipt request with
    | some row =>
      rw [found] at same
      cases same
      exact (Work.not_raises_pure rest).elim
    | none =>
      rw [found] at same
      cases same
      rcases Work.raises_bind rest with submits | ⟨record, v, submits, puts⟩
      · rcases raises_submit submits with rfl | ⟨entry, named, stored⟩
        · exact .inl rfl
        · exact .inr ⟨rfl, entry, named, stored⟩
      · obtain ⟨⟨entry, named, stored⟩, _⟩ := returns_submit submits
        rcases Work.raises_bind puts with writes | ⟨_, w, _, last⟩
        · rw [Work.raises_call writes]
          exact .inr ⟨rfl, entry, named, stored⟩
        · exact (Work.not_raises_pure last).elim

theorem postTask_posted (actor : String) (key : Option String) (call : TaskCall) (faults : Option Nat)
    (s : Store) : Posted call (requestKey actor key) s (postTask actor key call faults s).state := by
  unfold postTask
  cases requestKey actor key with
  | none => exact postKeyless_posted call faults s
  | some request =>
    rcases Work.returns_or_raises (postKeyed request call) faults s with ⟨_, _, returns⟩ | ⟨_, raises⟩
    · rcases postKeyed_returns returns with ⟨row, _, _, same⟩ | ⟨_, entry, u, named, stored, same⟩
      · rw [same]
        exact .nothing
      · rw [same]
        exact .receipt named stored rfl
    · rcases postKeyed_raises raises with same | ⟨_, entry, named, stored⟩
      · rw [same]
        exact .nothing
      · exact .task named stored

end Store
end LocalFlow
