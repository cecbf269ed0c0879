import LocalFlow.Library.Dict
import LocalFlow.Library.Work
import LocalFlow.Storage.Create
import LocalFlow.Variables

/-! Drafts with values the host allocates while it stores them: allocation, substitution and
validation, all inside the transaction of the submission. -/
namespace LocalFlow
open Faults

/-- `str.isspace` for one character. -/
def isSpace (c : Char) : Bool :=
  c.toNat ∈ [9, 10, 11, 12, 13, 28, 29, 30, 31, 32, 0x85, 0xA0, 0x1680, 0x2028, 0x2029, 0x202F, 0x205F,
    0x3000] || (0x2000 ≤ c.toNat && c.toNat ≤ 0x200A)

/-- `str.strip`. -/
def strip (text : String) : String :=
  String.ofList ((text.toList.dropWhile isSpace).reverse.dropWhile isSpace).reverse

/-- `int(text)`, where the digits are those of ASCII. -/
def intOf (text : String) : Option Int :=
  match (strip text).toList with
  | '-' :: digits => (String.ofList digits).toNat?.map (fun n => -(n : Int))
  | '+' :: digits => (String.ofList digits).toNat?.map Int.ofNat
  | digits => (String.ofList digits).toNat?.map Int.ofNat

theorem fromUTF8?_bytes (raw : String) :
    String.fromUTF8? ⟨raw.toUTF8.data.toList.toArray⟩ = some raw := by
  rw [Array.toArray_toList, String.fromUTF8?]
  exact dif_pos raw.isValidUTF8

/-- The validator of `labels` and `mutex_keys`. -/
def normalizedUnique (items : List String) : Option (List String) :=
  let normalized := items.map strip
  if normalized.any (fun item => item = "" ∨ 128 < item.length) then none
  else if normalized.Nodup then some normalized
  else none

/-- `TaskCreate.model_validate`; `none` is the `ValidationError`. -/
def TaskCreate.validate (draft : TaskCreate) : Option TaskCreate :=
  if 1 ≤ draft.name.length ∧ draft.name.length ≤ 200 ∧ 1 ≤ draft.workingDirectory.length ∧
      draft.command ≠ [] ∧ (∀ item ∈ draft.command, item ≠ "" ∧ Char.ofNat 0 ∉ item.toList) ∧
      draft.labels.length ≤ 64 ∧ draft.mutexKeys.length ≤ 32 then do
    let labels ← normalizedUnique draft.labels
    let mutexKeys ← normalizedUnique draft.mutexKeys
    some { draft with labels, mutexKeys }
  else none

inductive DeferredSource where
  | monotonicUnix
  deriving DecidableEq, Repr

def DeferredSource.value : DeferredSource → String
  | .monotonicUnix => "monotonic_unix"

/-- `[A-Za-z0-9_.:-]`. -/
def namespaceChar (c : Char) : Bool :=
  c.isAlphanum || c = '_' || c = '.' || c = ':' || c = '-'

structure DeferredValue where
  source : DeferredSource
  nameSpace : String
  range : 1 ≤ nameSpace.length ∧ nameSpace.length ≤ 128
  pattern : ∀ c ∈ nameSpace.toList, namespaceChar c = true

def DeferredValue.metadataKey (request : DeferredValue) : String :=
  "deferred:" ++ request.source.value ++ ":" ++ request.nameSpace

/-- A plain `TaskCreate` is a draft without deferred values. -/
structure TaskDraft extends TaskCreate where
  deferredValues : List (String × DeferredValue)
  distinct : (deferredValues.map Prod.fst).Nodup
  named : ∀ entry ∈ deferredValues, variableName.Named entry.1.toList
  count : deferredValues.length ≤ 32

theorem none_distinct : (([] : List (String × DeferredValue)).map Prod.fst).Nodup := by simp

theorem none_named :
    ∀ entry ∈ ([] : List (String × DeferredValue)), variableName.Named entry.1.toList := by simp

theorem none_count : ([] : List (String × DeferredValue)).length ≤ 32 := by simp

def TaskCreate.draft (task : TaskCreate) : TaskDraft where
  toTaskCreate := task
  deferredValues := []
  distinct := none_distinct
  named := none_named
  count := none_count

/-- One allocated integer. -/
structure Allocation where
  name : String
  request : DeferredValue
  value : Int

def Allocation.values (allocated : List Allocation) : Values :=
  allocated.map (fun allocation => (allocation.name, allocation.value))

/-- What a committed transaction did to one task. -/
inductive StoreCommit where
  | task (id : TaskId) (draft : TaskDraft) (allocated : List Allocation)
      (request : Option (String × String))
  | migration (id : TaskId) (allocation : Allocation)

def StoreCommit.allocated : StoreCommit → List Allocation
  | .task _ _ allocated _ => allocated
  | .migration _ allocation => [allocation]

/-- A row of `idempotency` of the route `/api/v1/tasks`. -/
structure TaskReceipt where
  actor : String
  key : String
  taskId : TaskId
  createdAt : String

/-- The database file. `metadata` holds the last integer of every sequence. `commits` is a history
variable, not a table: what was committed, oldest first. -/
structure Store where
  db : Db
  metadata : Dict String Int
  receipts : List TaskReceipt
  commits : List StoreCommit

def Store.empty : Store := ⟨.empty, .empty, [], []⟩

namespace Store

/-- Every integer allocated by a committed transaction, in commit order. -/
def issued (store : Store) : List Allocation := store.commits.flatMap StoreCommit.allocated

/-- `_allocate_deferred_locked`. -/
def allocateDeferred (now : Int) (request : DeferredValue) : Work Store Int := do
  let previous ← Work.read (fun store : Store => some (store.metadata.get request.metadataKey))
  let value := max now (previous + 1)
  Work.write (fun store : Store => some { store with
    metadata := store.metadata.set request.metadataKey value })
  pure value

/-- `clock n` is `int(time.time())` at the n-th allocation. -/
def allocateAll (clock : Nat → Int) : List (String × DeferredValue) → Nat → Work Store (List Allocation)
  | [], _ => pure []
  | (name, request) :: rest, n => do
    let value ← allocateDeferred (clock n) request
    let others ← allocateAll clock rest (n + 1)
    pure (⟨name, request, value⟩ :: others)

/-- A resolved field that validation accepts as a string. -/
def resolvedString (values : Values) (text : String) : Option String :=
  match values.resolve (.str text) with
  | some (.str s) => some s
  | _ => none

/-- Substitution of the allocated integers, the collision check and validation. -/
def resolved (draft : TaskDraft) (values : Values) : Option TaskCreate := do
  let name ← resolvedString values draft.name
  let workingDirectory ← resolvedString values draft.workingDirectory
  let command ← draft.command.mapM (fun item => (values.resolve (.str item)).map Json.text)
  let labels ← draft.labels.mapM (resolvedString values)
  let mutexKeys ← draft.mutexKeys.mapM (resolvedString values)
  let custom ← values.resolveFields draft.custom
  if custom.any (fun field => values.any (fun entry => entry.1 = field.1)) then none
  else
    TaskCreate.validate { draft.toTaskCreate with
      name, workingDirectory, command, labels, mutexKeys
      custom := custom ++ values.map (fun entry => (entry.1, Json.int entry.2)) }

/-- `_materialize_draft_locked`, with the integers it allocated. -/
def materializeDraft (clock : Nat → Int) (draft : TaskDraft) :
    Work Store (TaskCreate × List Allocation) :=
  if draft.deferredValues.isEmpty then do
    let task ← Work.given draft.toTaskCreate.validate
    pure (task, [])
  else do
    let allocated ← allocateAll clock draft.deferredValues 0
    let task ← Work.given (resolved draft (Allocation.values allocated))
    pure (task, allocated)

end Store
end LocalFlow
