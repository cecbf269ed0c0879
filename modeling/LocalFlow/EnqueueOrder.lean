import LocalFlow.Storage.Create
import LocalFlow.Storage.List
import LocalFlow.Library.Numeral

/-! Queue order against commit order. The queue is sorted by a wall-clock text and by an id made of
a clock reading and random digits, so it is the order of the readings and draws themselves. -/
namespace LocalFlow
open Numeral

/-- A UTC reading of `datetime.now`. -/
structure Datetime where
  year : Nat
  month : Nat
  day : Nat
  hour : Nat
  minute : Nat
  second : Nat
  microsecond : Nat
  date_range : (1 ≤ year ∧ year ≤ 9999) ∧ (1 ≤ month ∧ month ≤ 12) ∧ 1 ≤ day ∧ day ≤ 31
  time_range : hour < 24 ∧ minute < 60 ∧ second < 60 ∧ microsecond < 1000000

namespace Datetime

/-- The fraction is left out when it is zero. -/
def fraction (time : Datetime) : List Char :=
  (if time.microsecond = 0 then [] else '.' :: text 10 6 time.microsecond) ++ "+00:00".toList

def isoformat (time : Datetime) : String :=
  String.ofList (text 10 4 time.year ++ '-' :: (text 10 2 time.month ++ '-' ::
    (text 10 2 time.day ++ 'T' :: (text 10 2 time.hour ++ ':' ::
    (text 10 2 time.minute ++ ':' :: (text 10 2 time.second ++ time.fraction))))))

def fields (time : Datetime) : List Nat :=
  [time.year, time.month, time.day, time.hour, time.minute, time.second, time.microsecond]

/-- A fraction, when there is one, before the zone. -/
def marked (microsecond : Nat) (zone : List Char) : List Char :=
  (if microsecond = 0 then [] else '.' :: text 10 6 microsecond) ++ zone

/-- A missing fraction sorts first, as every sign of a zone precedes the point. -/
theorem marked_lt {m n : Nat} (left : m < 1000000) (right : n < 1000000) {sign other : Char}
    (before : sign < '.')
    (before' : other < '.') (xs ys : List Char) :
    marked m (sign :: xs) < marked n (other :: ys) ↔ m < n ∨ m = n ∧ sign :: xs < other :: ys := by
  unfold marked
  by_cases whole : m = 0 <;> by_cases whole' : n = 0
  · simp [whole, whole']
  · simp [whole, whole', List.cons_lt_cons_iff, before, Nat.pos_of_ne_zero whole', Ne.symm whole']
  · simp [whole, whole', List.cons_lt_cons_iff, lt_asymm before', before'.ne']
  · rw [if_neg whole, if_neg whole', List.cons_append, List.cons_append, List.cons_lt_cons_iff,
      text_append_lt (by decide) (by decide) left right, lt_self_iff_false, false_or]
    exact and_iff_right rfl

theorem fraction_lt (a b : Datetime) :
    a.fraction < b.fraction ↔ a.microsecond < b.microsecond := by
  have zone : "+00:00".toList = '+' :: "00:00".toList := rfl
  have compared := marked_lt a.time_range.2.2.2 b.time_range.2.2.2 (by decide : '+' < '.')
    (by decide : '+' < '.')
    "00:00".toList "00:00".toList
  rw [lt_self_iff_false, and_false, or_false] at compared
  exact compared

/-- Date and time to the second, and what follows. -/
def dated (time : Datetime) (tail : List Char) : List Char :=
  text 10 4 time.year ++ '-' :: (text 10 2 time.month ++ '-' ::
    (text 10 2 time.day ++ 'T' :: (text 10 2 time.hour ++ ':' ::
    (text 10 2 time.minute ++ ':' :: (text 10 2 time.second ++ tail)))))

def seconds (time : Datetime) : List Nat :=
  [time.year, time.month, time.day, time.hour, time.minute, time.second]

theorem dated_lt (a b : Datetime) (xs ys : List Char) :
    dated a xs < dated b ys ↔ a.seconds < b.seconds ∨ a.seconds = b.seconds ∧ xs < ys := by
  obtain ⟨⟨_, ya⟩, ⟨_, ma⟩, _, da⟩ := a.date_range
  obtain ⟨⟨_, yb⟩, ⟨_, mb⟩, _, db⟩ := b.date_range
  obtain ⟨ha, na, sa, _⟩ := a.time_range
  obtain ⟨hb, nb, sb, _⟩ := b.time_range
  have two : ∀ {m n : Nat} {xs ys : List Char}, m < 100 → n < 100 →
      (text 10 2 m ++ xs < text 10 2 n ++ ys ↔ m < n ∨ m = n ∧ xs < ys) :=
    fun left right => text_append_lt (by decide) (by decide) left right
  rw [dated, dated, text_append_lt (by decide) (by decide) (by omega) (by omega)]
  simp only [List.cons_lt_cons_iff, lt_irrefl, false_or, true_and]
  rw [two (by omega) (by omega)]
  simp only [List.cons_lt_cons_iff, lt_irrefl, false_or, true_and]
  rw [two (by omega) (by omega)]
  simp only [List.cons_lt_cons_iff, lt_irrefl, false_or, true_and]
  rw [two (by omega) (by omega)]
  simp only [List.cons_lt_cons_iff, lt_irrefl, false_or, true_and]
  rw [two (by omega) (by omega)]
  simp only [List.cons_lt_cons_iff, lt_irrefl, false_or, true_and]
  rw [two (by omega) (by omega)]
  simp only [seconds, List.cons_lt_cons_iff, List.cons.injEq, and_true, List.lt_irrefl,
    and_false, or_false]
  tauto

theorem fields_lt (a b : Datetime) :
    a.fields < b.fields ↔ a.seconds < b.seconds ∨ a.seconds = b.seconds ∧
      a.microsecond < b.microsecond := by
  simp only [fields, seconds, List.cons_lt_cons_iff, List.cons.injEq, and_true, List.lt_irrefl,
    and_false, or_false]
  tauto

theorem fields_eq (a b : Datetime) :
    a.fields = b.fields ↔ a.seconds = b.seconds ∧ a.microsecond = b.microsecond := by
  simp only [fields, seconds, List.cons.injEq, and_true, and_assoc]

theorem isoformat_lt (a b : Datetime) : a.isoformat < b.isoformat ↔ a.fields < b.fields := by
  have compared := dated_lt a b a.fraction b.fraction
  rw [fraction_lt, ← fields_lt] at compared
  rw [String.lt_iff_toList_lt, isoformat, isoformat, String.toList_ofList, String.toList_ofList]
  exact compared

end Datetime
/-- What one call of `new_id` reads: the clock in milliseconds and ten random bytes. -/
structure Draw where
  millisecond : Nat
  random : Nat
  clock_range : millisecond < 16 ^ 13
  random_range : random < 16 ^ 20

def newId (draw : Draw) : TaskId :=
  String.ofList (text 16 13 draw.millisecond ++ text 16 20 draw.random)

/-- Where a task stands in the queue: its `created_at` and its id. -/
structure Stamp where
  createdAt : Datetime
  draw : Draw

namespace Stamp

def id (stamp : Stamp) : TaskId := newId stamp.draw

def sortKey (stamp : Stamp) : SortKey := toLex (stamp.createdAt.isoformat, stamp.id)

def Before (a b : Stamp) : Prop :=
  a.createdAt.fields < b.createdAt.fields ∨ a.createdAt.fields = b.createdAt.fields ∧
    (a.draw.millisecond < b.draw.millisecond ∨
      a.draw.millisecond = b.draw.millisecond ∧ a.draw.random < b.draw.random)

theorem newId_lt (a b : Draw) : newId a < newId b ↔
    a.millisecond < b.millisecond ∨ a.millisecond = b.millisecond ∧ a.random < b.random := by
  rw [String.lt_iff_toList_lt, newId, newId, String.toList_ofList, String.toList_ofList,
    text_append_lt (by decide) (by decide) a.clock_range b.clock_range,
    text_lt_text (by decide) (by decide) a.random_range b.random_range]

theorem isoformat_inj (a b : Datetime) : a.isoformat = b.isoformat ↔ a.fields = b.fields := by
  have up := Datetime.isoformat_lt a b
  have down := Datetime.isoformat_lt b a
  rcases lt_trichotomy a.fields b.fields with less | same | more
  · simp only [less.ne, iff_false]
    exact (up.mpr less).ne
  · simp only [same, iff_true]
    refine le_antisymm (not_lt.mp (fun bad => ?_)) (not_lt.mp (fun bad => ?_))
    · exact absurd (down.mp bad) (by simp [same])
    · exact absurd (up.mp bad) (by simp [same])
  · simp only [more.ne', iff_false]
    exact (down.mpr more).ne'

/-- The texts compare as the readings and draws. -/
theorem sortKey_lt (a b : Stamp) : a.sortKey < b.sortKey ↔ a.Before b := by
  rw [sortKey, sortKey, Prod.Lex.lt_iff, Before]
  simp only [ofLex_toLex, Datetime.isoformat_lt, isoformat_inj, id, newId_lt]

end Stamp

/-- One commit of `create_task` or `create_batch`. -/
inductive Commit where
  | task (stamp : Stamp) (draft : TaskCreate)
  | batch (batchId template : String) (values : Object) (createdAt : Datetime)
      (tasks : List (Draw × TaskCreate))
      (idempotency : Option (String × String × String × BatchResponse))

namespace Commit

def batchTasks (tasks : List (Draw × TaskCreate)) : List (TaskId × TaskCreate) :=
  tasks.map (fun (draw, draft) => (newId draw, draft))

/-- The stamps of the tasks a commit stores; those of a batch in the order of their sequence
numbers. -/
def stamps : Commit → List Stamp
  | .task stamp _ => [stamp]
  | .batch _ _ _ createdAt tasks _ => tasks.map (fun (draw, _) => ⟨createdAt, draw⟩)

/-- `none` when the transaction is rolled back, or a stored response is replayed instead. -/
def apply (db : Db) : Commit → Option Db
  | .task stamp draft => db.createTask stamp.createdAt.isoformat stamp.id draft
  | .batch batchId template values createdAt tasks idempotency =>
    match db.createBatch createdAt.isoformat createdAt.isoformat batchId template values
        (batchTasks tasks) idempotency with
    | some (next, .created _) => some next
    | _ => none

def applyAll : List Commit → Db → Option Db
  | [], db => some db
  | commit :: rest, db => (commit.apply db).bind (applyAll rest)

def allStamps (commits : List Commit) : List Stamp := commits.flatMap stamps

end Commit

/-- Each page of the queue, and the pages in a row, list the tasks in commit order, and the tasks of
a batch by sequence number. -/
structure EnqueueOrder (db : Db) (committed : List TaskId) : Prop where
  page : ∀ limit, (db.listTasks { states := [.queued], limit, ascending := true }).map
    TaskRecord.id = committed.take (min (max limit 1) taskPageSize)
  pages : (db.allTasks [.queued]).map TaskRecord.id = committed
  batches : ∀ first ∈ db.batchTasks, ∀ second ∈ db.batchTasks, first.batchId = second.batchId →
    first.sequence < second.sequence →
    [first.taskId, second.taskId].Sublist ((db.allTasks [.queued]).map TaskRecord.id)

/-- What a row says about its place in the queue. -/
def TaskRecord.entry (row : TaskRecord) : SortKey × TaskState := (row.sortKey, row.state)

def queuedEntry (stamp : Stamp) : SortKey × TaskState := (stamp.sortKey, .queued)

def batchRows (batchId : String) : List TaskId → Nat → List BatchTask
  | [], _ => []
  | id :: rest, sequence => ⟨batchId, id, sequence⟩ :: batchRows batchId rest (sequence + 1)

section Commits
variable {db next : Db} {now createdAt batchId : String} {draft : TaskCreate} {id : TaskId}

theorem insertTask_rows (inserted : db.insertTask now createdAt id draft = some next) :
    next.tasks.rows.map TaskRecord.entry =
      db.tasks.rows.map TaskRecord.entry ++ [(toLex (createdAt, id), .queued)] ∧
    next.batchTasks = db.batchTasks ∧ next.batches = db.batches := by
  obtain ⟨status, tasks, insertion, _, rfl⟩ := Db.insertTask_some inserted
  refine ⟨?_, rfl, rfl⟩
  change tasks.rows.map _ = _
  rw [(Tasks.insert_some insertion).2, List.map_append]
  rfl

theorem insertBatchTasks_rows {tasks : List (TaskId × TaskCreate)} {sequence : Nat}
    (filled : Db.insertBatchTasks now createdAt batchId tasks sequence db = some next) :
    next.tasks.rows.map TaskRecord.entry = db.tasks.rows.map TaskRecord.entry ++
      tasks.map (fun (id, _) => (toLex (createdAt, id), .queued)) ∧
    next.batchTasks = db.batchTasks ++ batchRows batchId (tasks.map Prod.fst) sequence ∧
    next.batches = db.batches := by
  induction tasks generalizing db sequence with
  | nil =>
    cases filled
    simp [batchRows]
  | cons head rest ih =>
    obtain ⟨id, draft⟩ := head
    simp only [Db.insertBatchTasks, Option.bind_eq_bind, Option.bind_eq_some_iff] at filled
    obtain ⟨inserted, insertion, filled⟩ := filled
    obtain ⟨rows, tasks, batches⟩ := insertTask_rows insertion
    obtain ⟨laterRows, laterTasks, laterBatches⟩ := ih filled
    refine ⟨?_, ?_, laterBatches.trans batches⟩
    · rw [laterRows]
      simp [rows]
    · rw [laterTasks]
      simp [tasks, batchRows]

/-- Membership rows of a batch come in the order of their sequence numbers, in commit order. -/
structure BatchOrder (db : Db) (committed : List TaskId) : Prop where
  committed : (db.batchTasks.map BatchTask.taskId).Sublist committed
  sequence : db.batchTasks.Pairwise (fun a b => a.batchId = b.batchId → a.sequence < b.sequence)
  known : ∀ row ∈ db.batchTasks, ∃ batch ∈ db.batches, batch.id = row.batchId

theorem batchRows_ids (batchId : String) (ids : List TaskId) (sequence : Nat) :
    (batchRows batchId ids sequence).map BatchTask.taskId = ids ∧
    ∀ row ∈ batchRows batchId ids sequence, row.batchId = batchId ∧ sequence ≤ row.sequence := by
  induction ids generalizing sequence with
  | nil => simp [batchRows]
  | cons id rest ih =>
    obtain ⟨ids, rows⟩ := ih (sequence + 1)
    refine ⟨by simp [batchRows, ids], fun row member => ?_⟩
    obtain rfl | later := List.mem_cons.mp member
    · exact ⟨rfl, le_rfl⟩
    · exact ⟨(rows row later).1, Nat.le_of_succ_le (rows row later).2⟩

theorem batchRows_sequence (ids : List TaskId) (sequence : Nat) :
    (batchRows batchId ids sequence).Pairwise
      (fun a b => a.batchId = b.batchId → a.sequence < b.sequence) := by
  induction ids generalizing sequence with
  | nil => exact .nil
  | cons id rest ih =>
    refine .cons (fun row member _ => ?_) (ih (sequence + 1))
    exact ((batchRows_ids batchId rest (sequence + 1)).2 row member).2

theorem createBatch_rows {template : String} {values : Object} {tasks : List (TaskId × TaskCreate)}
    {idempotency : Option (String × String × String × BatchResponse)} {ids : List TaskId}
    (created : db.createBatch now createdAt batchId template values tasks idempotency =
      some (next, .created ids)) :
    next.tasks.rows.map TaskRecord.entry = db.tasks.rows.map TaskRecord.entry ++
      tasks.map (fun (id, _) => (toLex (createdAt, id), .queued)) ∧
    next.batchTasks = db.batchTasks ++ batchRows batchId (tasks.map Prod.fst) 0 ∧
    (∀ batch ∈ db.batches, batch.id ≠ batchId) ∧
    ∃ batch : BatchRecord, batch.id = batchId ∧ next.batches = db.batches ++ [batch] := by
  simp only [Db.createBatch, Option.bind_eq_bind] at created
  split at created
  · split at created <;> cases created
  · split at created
    · cases created
    · rename_i unknown
      obtain ⟨filled, filling, done⟩ := Option.bind_eq_some_iff.mp created
      obtain ⟨rows, batchTasks, batches⟩ := insertBatchTasks_rows filling
      have fresh : ∀ batch ∈ db.batches, batch.id ≠ batchId := by simpa using unknown
      split at done <;> cases done
      all_goals exact ⟨rows, batchTasks, fresh, _, rfl, batches⟩

theorem apply_rows {commit : Commit} (applied : commit.apply db = some next) :
    next.tasks.rows.map TaskRecord.entry =
      db.tasks.rows.map TaskRecord.entry ++ commit.stamps.map queuedEntry ∧
    ∀ ids, BatchOrder db ids → BatchOrder next (ids ++ commit.stamps.map Stamp.id) := by
  cases commit with
  | task stamp draft =>
    obtain ⟨rows, batchTasks, batches⟩ := insertTask_rows applied
    refine ⟨by rw [rows]; rfl, fun ids order => ⟨?_, ?_, ?_⟩⟩
    · rw [batchTasks]
      exact order.committed.trans (List.sublist_append_left _ _)
    · rw [batchTasks]
      exact order.sequence
    · rw [batchTasks, batches]
      exact order.known
  | batch batchId template values createdAt tasks idempotency =>
    simp only [Commit.apply] at applied
    split at applied
    · rename_i _ stored created
      cases applied
      obtain ⟨rows, batchTasks, fresh, batch, named, batches⟩ := createBatch_rows created
      obtain ⟨isIds, isRows⟩ :=
        batchRows_ids batchId ((Commit.batchTasks tasks).map Prod.fst) 0
      refine ⟨?_, fun ids order => ⟨?_, ?_, ?_⟩⟩
      · rw [rows]
        simp [Commit.stamps, Commit.batchTasks, Function.comp_def, queuedEntry, Stamp.sortKey,
          Stamp.id]
      · rw [batchTasks, List.map_append, isIds]
        refine order.committed.append ?_
        simp [Commit.stamps, Commit.batchTasks, Function.comp_def, Stamp.id]
      · rw [batchTasks, List.pairwise_append]
        refine ⟨order.sequence, batchRows_sequence _ _, fun a old b new same => ?_⟩
        obtain ⟨known, stored, isKnown⟩ := order.known a old
        exact absurd ((isKnown.trans same).trans (isRows b new).1) (fresh known stored)
      · rw [batchTasks, batches]
        intro row member
        obtain old | new := List.mem_append.mp member
        · obtain ⟨known, stored, isKnown⟩ := order.known row old
          exact ⟨known, List.mem_append_left _ stored, isKnown⟩
        · exact ⟨batch, by simp, named.trans (isRows row new).1.symm⟩
    · cases applied

theorem applyAll_rows {commits : List Commit} (ids : List TaskId)
    (applied : Commit.applyAll commits db = some next) (order : BatchOrder db ids) :
    next.tasks.rows.map TaskRecord.entry =
      db.tasks.rows.map TaskRecord.entry ++ (Commit.allStamps commits).map queuedEntry ∧
    BatchOrder next (ids ++ (Commit.allStamps commits).map Stamp.id) := by
  induction commits generalizing db ids with
  | nil =>
    cases applied
    simpa [Commit.allStamps] using order
  | cons commit rest ih =>
    obtain ⟨middle, first, applied⟩ := Option.bind_eq_some_iff.mp applied
    obtain ⟨rows, keeps⟩ := apply_rows first
    obtain ⟨laterRows, laterOrder⟩ := ih _ applied (keeps ids order)
    refine ⟨?_, ?_⟩
    · rw [laterRows, rows]
      simp [Commit.allStamps]
    · simpa [Commit.allStamps] using laterOrder

/-- Two members of a list stand in one order or the other. -/
theorem sublist_pair {α : Type} {a b : α} {xs : List α} (left : a ∈ xs) (right : b ∈ xs)
    (apart : a ≠ b) : [a, b].Sublist xs ∨ [b, a].Sublist xs := by
  induction xs with
  | nil => cases left
  | cons x xs ih =>
    obtain rfl | early := List.mem_cons.mp left
    · obtain rfl | late := List.mem_cons.mp right
      · exact absurd rfl apart
      · exact .inl (.cons_cons _ (List.singleton_sublist.mpr late))
    · obtain rfl | late := List.mem_cons.mp right
      · exact .inr (.cons_cons _ (List.singleton_sublist.mpr early))
      · exact (ih early late).imp (.cons _) (.cons _)

theorem BatchOrder.listed {ids : List TaskId} (order : BatchOrder db ids) {first second : BatchTask}
    (left : first ∈ db.batchTasks) (right : second ∈ db.batchTasks)
    (same : first.batchId = second.batchId) (below : first.sequence < second.sequence) :
    [first.taskId, second.taskId].Sublist ids := by
  have apart : first ≠ second := by
    rintro rfl
    exact absurd below (lt_irrefl _)
  obtain forward | backward := sublist_pair left right apart
  · exact (forward.map BatchTask.taskId).trans order.committed
  · have wrong := order.sequence.sublist backward
    rw [List.pairwise_pair] at wrong
    exact absurd (wrong same.symm) (by omega)

/-- The queue of a database that stores only queued tasks. -/
theorem allTasks_queued {stamps : List Stamp}
    (rows : db.tasks.rows.map TaskRecord.entry = stamps.map queuedEntry) :
    db.allTasks [.queued] = Keyset.ordered TaskRecord.sortKey db.tasks.rows := by
  rw [Db.allTasks_eq db (by simp), Db.inStates, List.filter_eq_self.mpr]
  intro row stored
  have listed : row.entry ∈ stamps.map queuedEntry := rows ▸ List.mem_map_of_mem stored
  obtain ⟨stamp, _, same⟩ := List.mem_map.mp listed
  have queued : row.state = .queued := (congrArg Prod.snd same).symm
  simp [queued]

theorem pairwise_rows {stamps : List Stamp}
    (rows : db.tasks.rows.map TaskRecord.entry = stamps.map queuedEntry) :
    db.tasks.rows.Pairwise (fun a b => a.sortKey < b.sortKey) ↔ stamps.Pairwise Stamp.Before := by
  have keys : db.tasks.rows.map TaskRecord.sortKey = stamps.map Stamp.sortKey := by
    have both := congrArg (List.map Prod.fst) rows
    rw [List.map_map, List.map_map] at both
    exact both
  have left := List.pairwise_map (f := TaskRecord.sortKey) (l := db.tasks.rows) (R := (· < ·))
  have right := List.pairwise_map (f := Stamp.sortKey) (l := stamps) (R := (· < ·))
  rw [← left, keys, right]
  simp only [Stamp.sortKey_lt]

/-- The queue is in commit order exactly when the clock readings and the draws the commits took
increase from each task to every later one. -/
theorem enqueue_order_iff {commits : List Commit} (applied : Commit.applyAll commits .empty = some db) :
    EnqueueOrder db ((Commit.allStamps commits).map Stamp.id) ↔
      (Commit.allStamps commits).Pairwise Stamp.Before := by
  obtain ⟨rows, order⟩ := applyAll_rows [] applied ⟨.refl _, .nil, by simp [Db.empty]⟩
  rw [List.nil_append] at order
  have rows' : db.tasks.rows.map TaskRecord.entry =
      (Commit.allStamps commits).map queuedEntry := rows
  have ids : db.tasks.rows.map TaskRecord.id = (Commit.allStamps commits).map Stamp.id := by
    have both := congrArg (List.map (fun entry => (ofLex entry.1).2)) rows'
    rw [List.map_map, List.map_map] at both
    exact both
  have listing := allTasks_queued rows'
  rw [← pairwise_rows rows', ← ids]
  constructor
  · intro inOrder
    have sorted := (Db.distinct_sortKeys db.tasks).strict
    have same : Keyset.ordered TaskRecord.sortKey db.tasks.rows = db.tasks.rows := by
      have equal := inOrder.pages
      rw [listing] at equal
      have stored : ∀ rows : List TaskRecord, (∀ row ∈ rows, row ∈ db.tasks.rows) →
          (rows.map TaskRecord.id).map db.getTask = rows.map some := by
        intro rows members
        rw [List.map_map]
        exact List.map_congr_left (fun row member => Tasks.get?_of_mem (members row member))
      refine List.map_injective_iff.mpr (Option.some_injective _) ?_
      rw [← stored _ (fun row member => Keyset.mem_ordered.mp member), equal,
        stored _ (fun _ member => member)]
    rwa [same] at sorted
  · intro increasing
    have same := Keyset.ordered_eq_of_strict increasing
    have whole : (db.allTasks [.queued]).map TaskRecord.id = db.tasks.rows.map TaskRecord.id := by
      rw [listing, same]
    refine ⟨fun limit => ?_, whole, ?_⟩
    · have isPage : db.listTasks { states := [.queued], limit, ascending := true } =
          (db.allTasks [.queued]).take (min (max limit 1) taskPageSize) := by
        have page := Db.statePage_eq db [.queued] (by simp) limit none
        rw [Keyset.page, Keyset.remaining_none, ← Db.allTasks_eq db (by simp)] at page
        exact page
      rw [isPage, List.map_take, whole]
    · intro first left second right sameBatch below
      rw [whole, ids]
      exact order.listed left right sameBatch below

theorem first_day_range : (1 ≤ 2026 ∧ 2026 ≤ 9999) ∧ (1 ≤ 1 ∧ 1 ≤ 12) ∧ 1 ≤ 1 ∧ 1 ≤ 31 := by decide

/-- Noon of one day, and what `new_id` draws then. -/
def noon : Datetime := ⟨2026, 1, 1, 12, 0, 0, 0, first_day_range, by decide⟩

def noonDraw (random : Fin 100) : Draw :=
  ⟨1767268800000, random.val, by decide, random.isLt.trans (by decide)⟩

/-- A batch of two tasks committed at noon. -/
def noonBatch (first second : Fin 100) : List Commit :=
  [.batch "batch" "template" [] noon
    [(noonDraw first, .keyed []), (noonDraw second, .keyed [])] none]

theorem enqueue_order_noon : EnqueueOrder
    ((Commit.applyAll (noonBatch 1 2) .empty).get (by decide +kernel))
    ((Commit.allStamps (noonBatch 1 2)).map Stamp.id) :=
  (enqueue_order_iff (Option.some_get _).symm).mpr (by
    rw [show Commit.allStamps (noonBatch 1 2) = [⟨noon, noonDraw 1⟩, ⟨noon, noonDraw 2⟩] from rfl,
      List.pairwise_pair]
    exact .inr ⟨rfl, .inr ⟨rfl, by decide⟩⟩)

/-- The random part of the second id is the smaller one: the queue lists the batch backwards. -/
theorem random_reorders : ∃ commits db, Commit.applyAll commits .empty = some db ∧
    ¬ EnqueueOrder db ((Commit.allStamps commits).map Stamp.id) := by
  refine ⟨noonBatch 2 1, (Commit.applyAll (noonBatch 2 1) .empty).get (by decide +kernel),
    (Option.some_get _).symm, fun order => ?_⟩
  exact absurd order.pages (by decide +kernel)

end Commits
end LocalFlow
