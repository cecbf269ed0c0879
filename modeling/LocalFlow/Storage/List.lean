import LocalFlow.Storage.Transition
import Mathlib.Data.List.Infix

/-! `list_tasks` and the scheduler's unbounded iteration over it. Rows are ordered by
`(created_at, id)`, compared as text. -/
namespace LocalFlow

/-- `(created_at, id)`, ordered as `ORDER BY created_at, id` orders rows. -/
abbrev SortKey := String ×ₗ String

def TaskRecord.sortKey (row : TaskRecord) : SortKey := toLex (row.createdAt, row.id)

/-- ASCII case folding of `LIKE`. -/
def likeChar (c : Char) : Char :=
  if 'A' ≤ c ∧ c ≤ 'Z' then Char.ofNat (c.toNat + 32) else c

/-- `name LIKE '%needle%'` with every wildcard of the needle escaped. -/
def likeContains (needle text : String) : Bool :=
  decide (needle.toList.map likeChar <:+: text.toList.map likeChar)

structure Query where
  states : List TaskState := []
  labels : List String := []
  name : Option String := none
  createdFrom : Option String := none
  createdTo : Option String := none
  startedFrom : Option String := none
  startedTo : Option String := none
  endedFrom : Option String := none
  endedTo : Option String := none
  limit : Nat := 100
  before : Option SortKey := none
  after : Option SortKey := none
  ascending : Bool := false

/-- A time clause; a null column satisfies no comparison. -/
def withinBounds (low high column : Option String) : Bool :=
  (low.all (fun bound => column.any (fun text => bound ≤ text))) &&
    (high.all (fun bound => column.any (fun text => text ≤ bound)))

namespace Query

def selects (query : Query) (row : TaskRecord) : Bool :=
  (query.states.isEmpty || row.state ∈ query.states) &&
  query.name.all (fun name => name = "" || likeContains name row.name) &&
  query.labels.all (fun label => label ∈ row.labels) &&
  withinBounds query.createdFrom query.createdTo (some row.createdAt) &&
  withinBounds query.startedFrom query.startedTo row.startedAt &&
  withinBounds query.endedFrom query.endedTo row.endedAt &&
  query.before.all (fun key =>
    row.createdAt < (ofLex key).1 || row.createdAt = (ofLex key).1 && row.id < (ofLex key).2) &&
  query.after.all (fun key =>
    (ofLex key).1 < row.createdAt || row.createdAt = (ofLex key).1 && (ofLex key).2 < row.id)

end Query

/-- The largest page `list_tasks` returns, and `TASK_PAGE_SIZE` of the service. -/
def taskPageSize : Nat := 10000

namespace Db

def listTasks (db : Db) (query : Query) : List TaskRecord :=
  let chosen := db.tasks.rows.filter query.selects
  let sorted :=
    if query.ascending then chosen.insertionSort (fun a b => a.sortKey ≤ b.sortKey)
    else chosen.insertionSort (fun a b => b.sortKey ≤ a.sortKey)
  sorted.take (min (max query.limit 1) taskPageSize)

/-- One ascending page of the tasks in some states, after a cursor. -/
def statePage (db : Db) (states : List TaskState) (limit : Nat)
    (cursor : Option SortKey) : List TaskRecord :=
  db.listTasks { states, limit, after := cursor, ascending := true }

/-- `_all_tasks`. Each page but the last advances the cursor, so one turn more than there are rows
is enough. -/
def allTasks (db : Db) (states : List TaskState) : List TaskRecord :=
  Keyset.scan TaskRecord.sortKey (db.statePage states taskPageSize) taskPageSize
    (db.tasks.rows.length + 1) none

def inStates (db : Db) (states : List TaskState) : List TaskRecord :=
  db.tasks.rows.filter (fun row => row.state ∈ states)

theorem distinct_sortKeys (tasks : Tasks) : Keyset.Distinct TaskRecord.sortKey tasks.rows := by
  have ids := tasks.primaryKey
  unfold Keyset.Distinct
  rw [List.nodup_iff_pairwise_ne, List.pairwise_map] at ids ⊢
  refine ids.imp (fun apart same => apart ?_)
  exact congrArg (fun k : String ×ₗ String => (ofLex k).2) same

theorem distinct_inStates (db : Db) (states : List TaskState) :
    Keyset.Distinct TaskRecord.sortKey (db.inStates states) :=
  (distinct_sortKeys db.tasks).sublist List.filter_sublist

/-- The SQL cursor clause is the lexicographic order of the sort keys. -/
theorem after_clause (cursor : Option SortKey) (row : TaskRecord) :
    cursor.all (fun key => (ofLex key).1 < row.createdAt ||
        row.createdAt = (ofLex key).1 && (ofLex key).2 < row.id) = true ↔
      Keyset.After TaskRecord.sortKey cursor row := by
  cases cursor with
  | none => simp
  | some key =>
    simp only [Option.all_some, Bool.or_eq_true, decide_eq_true_eq, Bool.and_eq_true,
      Keyset.after_some, TaskRecord.sortKey, Prod.Lex.lt_iff, ofLex_toLex]
    rw [eq_comm (a := row.createdAt)]

/-- A scheduler page is a keyset page over the tasks in the given states. -/
theorem statePage_eq (db : Db) (states : List TaskState) (some_state : states ≠ []) (limit : Nat)
    (cursor : Option SortKey) : db.statePage states limit cursor =
      Keyset.page TaskRecord.sortKey (min (max limit 1) taskPageSize) cursor
        (db.inStates states) := by
  simp only [statePage, listTasks, Keyset.page, Keyset.remaining, Keyset.ordered, if_true,
    inStates, List.filter_filter]
  congr 2
  refine List.filter_congr (fun row _ => ?_)
  have clause := after_clause cursor row
  rw [Bool.eq_iff_iff, Bool.and_eq_true, decide_eq_true_eq, ← clause]
  simp [Query.selects, withinBounds, some_state, and_comm]

theorem allTasks_eq (db : Db) {states : List TaskState} (some_state : states ≠ []) :
    db.allTasks states = Keyset.ordered TaskRecord.sortKey (db.inStates states) := by
  have pages : db.statePage states taskPageSize = fun cursor =>
      Keyset.page TaskRecord.sortKey taskPageSize cursor (db.inStates states) := by
    funext cursor
    rw [statePage_eq db states some_state]
    rfl
  have fewer : (Keyset.remaining TaskRecord.sortKey none (db.inStates states)).length <
      db.tasks.rows.length + 1 := by
    rw [Keyset.remaining_none, (Keyset.ordered_perm _).length_eq]
    exact Nat.lt_succ_of_le (List.length_filter_le _ _)
  rw [allTasks, pages, (distinct_inStates db states).scan_eq (by decide) _ _ fewer,
    Keyset.remaining_none]

theorem mem_allTasks (db : Db) {states : List TaskState} (some_state : states ≠ [])
    {row : TaskRecord} :
    row ∈ db.allTasks states ↔ row ∈ db.tasks.rows ∧ row.state ∈ states := by
  rw [allTasks_eq db some_state, Keyset.mem_ordered]
  simp [inStates]

theorem mem_statePage {db : Db} {states : List TaskState} {limit : Nat} {cursor : Option SortKey}
    {row : TaskRecord} (some_state : states ≠ []) (member : row ∈ db.statePage states limit cursor) :
    db.getTask row.id = some row ∧ row.state ∈ states := by
  rw [statePage_eq db states some_state] at member
  have listed := (Keyset.mem_page member).1
  rw [inStates, List.mem_filter, decide_eq_true_eq] at listed
  exact ⟨Tasks.get?_of_mem listed.1, listed.2⟩

end Db
end LocalFlow
