import LocalFlow.EnqueueOrder
import LocalFlow.Upkeep

/-! One pass of `maintain`: which tasks it deletes, in which order, and what is left of the tables and
of the log directories. -/
namespace LocalFlow
open Faults

/-- Leaving out some keys and then more of them. -/
theorem filter_outside {α : Type} (key : α → TaskId) (ids more : List TaskId) (items : List α) :
    (items.filter (fun item => key item ∉ ids)).filter (fun item => key item ∉ more) =
      items.filter (fun item => key item ∉ ids ++ more) := by
  rw [List.filter_filter]
  exact List.filter_congr (fun item _ => by simp [Bool.and_comm])

namespace Logs

/-- The directories of other tasks. -/
def without (logs : Logs) (ids : List TaskId) : Logs := logs.filter (fun entry => entry.1 ∉ ids)

variable {logs : Logs} {id : TaskId} {ids more : List TaskId}

theorem without_nil : logs.without [] = logs := by
  unfold without
  exact List.filter_eq_self.mpr (by simp)

theorem without_append : logs.without (ids ++ more) = (logs.without ids).without more := by
  unfold without
  exact (filter_outside Prod.fst ids more logs).symm

theorem remove_eq : logs.remove id = logs.without [id] := by
  unfold remove without
  refine List.filter_congr (fun entry _ => ?_)
  simp

theorem lookup_without (apart : id ∉ ids) : (logs.without ids).lookup id = logs.lookup id := by
  unfold without
  induction logs with
  | nil => rfl
  | cons entry rest ih =>
    rw [List.filter_cons]
    by_cases same : id = entry.1
    · subst same
      rw [if_pos (by simpa using apart), List.lookup_cons_self, List.lookup_cons_self]
    · have other : (id == entry.1) = false := by simpa using same
      split
      · rw [List.lookup_cons, List.lookup_cons, other, ih]
      · rw [List.lookup_cons, other, ih]

theorem lookup_gone (gone : id ∈ ids) : (logs.without ids).lookup id = none := by
  rw [List.lookup_eq_none_iff]
  intro entry member
  have kept : entry.1 ∉ ids := of_decide_eq_true (List.mem_filter.mp member).2
  have apart : id ≠ entry.1 := fun same => kept (same ▸ gone)
  simpa using apart

theorem distinct_without (distinct : (logs.map Prod.fst).Nodup) :
    ((logs.without ids).map Prod.fst).Nodup :=
  distinct.sublist (List.filter_sublist.map _)

/-- The bytes that go with one directory. -/
theorem total_without (distinct : (logs.map Prod.fst).Nodup) {directory : LogDirectory}
    (found : logs.lookup id = some directory) :
    (logs.without [id]).total + directory.size = logs.total := by
  unfold total without
  induction logs with
  | nil => cases found
  | cons entry rest ih =>
    rw [List.map_cons, List.nodup_cons] at distinct
    rw [List.lookup_cons] at found
    rw [List.filter_cons]
    by_cases same : id = entry.1
    · subst same
      simp only [beq_self_eq_true, Option.some.injEq] at found
      have others : rest.filter (fun other => decide (other.1 ∉ [entry.1])) = rest := by
        refine List.filter_eq_self.mpr (fun other member => ?_)
        have apart : other.1 ≠ entry.1 := fun equal => distinct.1 (equal ▸ List.mem_map_of_mem member)
        simpa using apart
      rw [if_neg (by simp), others, List.map_cons, List.sum_cons, found]
      exact Nat.add_comm _ _
    · have other : (id == entry.1) = false := by simpa using same
      rw [other] at found
      rw [if_pos (by simpa using Ne.symm same), List.map_cons, List.map_cons, List.sum_cons,
        List.sum_cons,
        Nat.add_assoc, ih distinct.2 found]

end Logs

/-- What the deletion of some tasks leaves of the tables. -/
structure Deletes (ids : List TaskId) (db next : Db) : Prop where
  tasks : next.tasks.rows = db.tasks.rows.filter (fun row => row.id ∉ ids)
  acknowledgements : next.acknowledgements = db.acknowledgements.filter (fun row => row.taskId ∉ ids)
  batchTasks : next.batchTasks = db.batchTasks.filter (fun row => row.taskId ∉ ids)
  events : ∀ event ∈ next.events.rows, event ∈ db.events.rows ∧ ∀ id ∈ ids, event.taskId ≠ some id
  batches : ∀ batch ∈ next.batches, batch ∈ db.batches
  kept : ∀ batch ∈ db.batches, (∃ row ∈ next.batchTasks, row.batchId = batch.id) → batch ∈ next.batches
  gone : ∀ batch ∈ db.batches, (∃ row ∈ db.batchTasks, row.batchId = batch.id) →
    (∀ row ∈ next.batchTasks, row.batchId ≠ batch.id) → batch ∉ next.batches

namespace Deletes
variable {db next last : Db} {ids more : List TaskId}

theorem refl (db : Db) : Deletes [] db db where
  tasks := (List.filter_eq_self.mpr (by simp)).symm
  acknowledgements := (List.filter_eq_self.mpr (by simp)).symm
  batchTasks := (List.filter_eq_self.mpr (by simp)).symm
  events event member := ⟨member, by simp⟩
  batches _ member := member
  kept _ member _ := member
  gone batch _ some_row none_row := by
    obtain ⟨row, member, same⟩ := some_row
    exact absurd same (none_row row member)

theorem trans (first : Deletes ids db next) (second : Deletes more next last) :
    Deletes (ids ++ more) db last where
  tasks := by
    rw [second.tasks, first.tasks, filter_outside]
  acknowledgements := by
    rw [second.acknowledgements, first.acknowledgements, filter_outside]
  batchTasks := by
    rw [second.batchTasks, first.batchTasks, filter_outside]
  events event member := by
    obtain ⟨middle, late⟩ := second.events event member
    obtain ⟨stored, early⟩ := first.events event middle
    refine ⟨stored, fun id listed => ?_⟩
    obtain old | new := List.mem_append.mp listed
    · exact early id old
    · exact late id new
  batches batch member := first.batches batch (second.batches batch member)
  kept batch member some_row := by
    refine second.kept batch (first.kept batch member ?_) some_row
    obtain ⟨row, stays, same⟩ := some_row
    rw [second.batchTasks] at stays
    exact ⟨row, List.mem_of_mem_filter stays, same⟩
  gone batch member some_row none_row stays := by
    by_cases left : ∃ row ∈ next.batchTasks, row.batchId = batch.id
    · exact second.gone batch (first.kept batch member left) left none_row stays
    · refine first.gone batch member some_row (fun row listed same => left ⟨row, listed, same⟩) ?_
      exact second.batches batch stays

theorem getTask (deletes : Deletes ids db next) (id : TaskId) :
    next.getTask id = if id ∈ ids then none else db.getTask id := by
  have same : next.tasks.get? id = (db.tasks.delete ids).get? id :=
    congrArg (List.find? _) deletes.tasks
  rw [Db.getTask, same]
  exact Tasks.get?_delete ids

end Deletes

theorem deletes_withoutTasks (db : Db) (ids : List TaskId) : Deletes ids db (db.withoutTasks ids) where
  tasks := rfl
  acknowledgements := rfl
  batchTasks := rfl
  events event member := by
    obtain ⟨stored, kept⟩ := List.mem_filter.mp member
    refine ⟨stored, fun id listed same => ?_⟩
    simp [same, listed] at kept
  batches _ member := List.mem_of_mem_filter member
  kept batch member some_row := by
    obtain ⟨row, listed, same⟩ := some_row
    exact List.mem_filter.mpr ⟨member, List.any_eq_true.mpr ⟨row, listed, by simpa using same⟩⟩
  gone batch _ _ none_row stays := by
    obtain ⟨row, listed, same⟩ := List.any_eq_true.mp (List.mem_filter.mp stays).2
    exact none_row row listed (by simpa using same)

theorem deletes_retained (db : Db) (tasksBefore eventsBefore idempotencyBefore : String) :
    Deletes (db.terminalTaskIdsBefore tasksBefore) db
    (db.retained tasksBefore eventsBefore idempotencyBefore) := by
  have purged : Deletes (db.terminalTaskIdsBefore tasksBefore) db
      (if (db.terminalTaskIdsBefore tasksBefore).isEmpty then db
        else db.withoutTasks (db.terminalTaskIdsBefore tasksBefore)) := by
    split
    · rename_i empty
      rw [List.isEmpty_iff.mp empty]
      exact .refl db
    · exact deletes_withoutTasks db _
  refine ⟨purged.tasks, purged.acknowledgements, purged.batchTasks, fun event member =>
    ?_, purged.batches,
    purged.kept, purged.gone⟩
  exact purged.events event (List.mem_of_mem_filter member)

section Passes
variable {turn : Turn Upkeep} {limit : Nat} {id : TaskId}

theorem setLogSize_missing {db : Db} (missing : db.getTask id = none) (size : Nat) :
    db.setLogSize id size = db := by
  have others : ∀ row ∈ db.tasks.rows, row.id ≠ id := Tasks.get?_none.mp missing
  have rows : db.tasks.rows.map (fun row => if row.id = id then { row with logSize := size } else row) =
      db.tasks.rows := by
    refine (List.map_congr_left (fun row member => ?_)).trans (List.map_id _)
    exact if_neg (others row member)
  unfold Db.setLogSize Tasks.update
  congr

theorem without_missing {logs : Logs} (missing : logs.lookup id = none) : logs.without [id] = logs := by
  refine List.filter_eq_self.mpr (fun entry member => ?_)
  have apart := List.lookup_eq_none_iff.mp missing entry member
  simpa using Ne.symm (by simpa using apart)

/-- The directory of a deleted task goes, and nothing else. -/
theorem removeLog_state (safe : turn.Safe) (missing : turn.state.db.getTask id = none) :
    (removeLog turn id).Safe ∧
    (removeLog turn id).state = { turn.state with logs := turn.state.logs.without [id] } := by
  refine ⟨safe_removeLog safe id, ?_⟩
  unfold removeLog
  split
  · rename_i none_found
    rw [without_missing (Option.isNone_iff_eq_none.mp none_found)]
  · rw [safe.call.1.call.2, safe.call.2]
    dsimp only
    rw [setLogSize_missing missing, Logs.remove_eq]

theorem removeLogs_state (ids : List TaskId) (safe : turn.Safe)
    (missing : ∀ id ∈ ids, turn.state.db.getTask id = none) :
    (ids.foldl removeLog turn).Safe ∧
    (ids.foldl removeLog turn).state = { turn.state with logs := turn.state.logs.without ids } := by
  induction ids generalizing turn with
  | nil =>
    refine ⟨safe, ?_⟩
    rw [Logs.without_nil]
    rfl
  | cons id rest ih =>
    obtain ⟨fine, state⟩ := removeLog_state safe (missing id List.mem_cons_self)
    obtain ⟨done, isDone⟩ := ih fine (fun other member => by
      rw [state]
      exact missing other (List.mem_cons_of_mem _ member))
    refine ⟨done, isDone.trans ?_⟩
    rw [state]
    dsimp only
    rw [← Logs.without_append]
    rfl

/-- A list of tasks is worked off from the front as long as the logs are too large. -/
structure Evicts (limit : Nat) (logs : Logs) (candidates evicted rest : List TaskRecord) : Prop where
  order : candidates = evicted ++ rest
  exceeds : ∀ front row back, evicted = front ++ row :: back →
    limit < (logs.without (front.map TaskRecord.id)).total
  stops : rest = [] ∨ (logs.without (evicted.map TaskRecord.id)).total ≤ limit

namespace Evicts
variable {logs : Logs} {row : TaskRecord} {candidates evicted rest : List TaskRecord}

/-- Logs that fit lose nothing. -/
theorem fits (evicts : Evicts limit logs candidates evicted rest) (fits : logs.total ≤ limit) :
    evicted = [] := by
  cases evicted with
  | nil => rfl
  | cons row back =>
    have exceeds := evicts.exceeds [] row back rfl
    rw [List.map_nil, Logs.without_nil] at exceeds
    omega

theorem idle (fits : logs.total ≤ limit) (candidates : List TaskRecord) :
    Evicts limit logs candidates [] candidates where
  order := rfl
  exceeds front row back same := by simp at same
  stops := by
    rw [List.map_nil, Logs.without_nil]
    exact .inr fits

theorem cons (exceeds : limit < logs.total)
    (evicts : Evicts limit (logs.without [row.id]) candidates evicted rest) :
    Evicts limit logs (row :: candidates) (row :: evicted) rest where
  order := congrArg (List.cons row) evicts.order
  exceeds front other back same := by
    cases front with
    | nil =>
      rw [List.map_nil, Logs.without_nil]
      exact exceeds
    | cons first front =>
      rw [List.cons_append, List.cons.injEq] at same
      obtain ⟨rfl, same⟩ := same
      have later := evicts.exceeds front other back same
      rw [← Logs.without_append] at later
      exact later
  stops := by
    refine evicts.stops.imp_right (fun fits => ?_)
    rw [← Logs.without_append] at fits
    exact fits

end Evicts

/-- An ended task goes with its directory while the logs are too large. -/
theorem shrinkLogs_evicts {row : TaskRecord} {directory : LogDirectory} (safe : turn.Safe)
    (found : turn.state.db.getTask row.id = some row) (ended : row.state.terminal = true)
    (exceeds : ¬ turn.state.total ≤ limit) (held : turn.state.logs.lookup row.id = some directory)
    (names : (turn.state.logs.map Prod.fst).Nodup) (total : turn.state.total = turn.state.logs.total) :
    (shrinkLogs limit turn row.id).Safe ∧ (shrinkLogs limit turn row.id).state = { turn.state with
      db := turn.state.db.withoutTasks [row.id]
      logs := turn.state.logs.without [row.id]
      total := (turn.state.logs.without [row.id]).total
      deleted := turn.state.deleted ++ [row.id] } := by
  have purged : turn.state.db.purgeTerminalTask row.id =
    some (turn.state.db.withoutTasks [row.id], true) := by
    rw [Db.purgeTerminalTask_eq, found, Option.map_some, if_pos ended]
  have left : turn.state.total - directory.size = (turn.state.logs.without [row.id]).total := by
    have whole := Logs.total_without names held
    omega
  unfold shrinkLogs
  rw [if_neg exceeds, held]
  dsimp only
  rw [purged]
  refine ⟨safe.call.1.call.1.set.1, ?_⟩
  rw [safe.call.1.call.1.set.2, safe.call.1.call.2, safe.call.2]
  dsimp only
  rw [left, Logs.remove_eq]

/-- The scan over the ended tasks, oldest first. The running total is the size of what is left. -/
theorem evicts_shrinkLogs (rows : List TaskRecord) (safe : turn.Safe)
    (distinct : (rows.map TaskRecord.id).Nodup)
    (stored : ∀ row ∈ rows, turn.state.db.getTask row.id = some row ∧ row.state.terminal = true)
    (names : (turn.state.logs.map Prod.fst).Nodup) (total : turn.state.total = turn.state.logs.total) :
    ∃ evicted rest next, Evicts limit turn.state.logs
        (rows.filter (fun row => (turn.state.logs.lookup row.id).isSome)) evicted rest ∧
      Deletes (evicted.map TaskRecord.id) turn.state.db next ∧
      ((rows.map TaskRecord.id).foldl (shrinkLogs limit) turn).Safe ∧
      ((rows.map TaskRecord.id).foldl (shrinkLogs limit) turn).state = { turn.state with
        db := next
        logs := turn.state.logs.without (evicted.map TaskRecord.id)
        total := (turn.state.logs.without (evicted.map TaskRecord.id)).total
        deleted := turn.state.deleted ++ evicted.map TaskRecord.id } := by
  induction rows generalizing turn with
  | nil =>
    refine ⟨[], [], turn.state.db, ⟨rfl, by simp, .inl rfl⟩, .refl _, safe, ?_⟩
    rw [List.map_nil, Logs.without_nil, ← total, List.append_nil]
    rfl
  | cons row rows ih =>
    rw [List.map_cons, List.nodup_cons] at distinct
    obtain ⟨found, ended⟩ := stored row List.mem_cons_self
    have later : ∀ other ∈ rows, turn.state.db.getTask other.id = some other ∧
      other.state.terminal = true :=
      fun other member => stored other (List.mem_cons_of_mem _ member)
    rw [List.map_cons, List.foldl_cons]
    by_cases fits : turn.state.total ≤ limit
    · have same : shrinkLogs limit turn row.id = turn := if_pos fits
      rw [same]
      obtain ⟨evicted, rest, next, evicts, deletes, done, state⟩ := ih safe distinct.2 later names total
      rw [total] at fits
      cases evicts.fits fits
      exact ⟨[], _, next, .idle fits _, deletes, done, state⟩
    · cases directory : turn.state.logs.lookup row.id with
      | none =>
        have same : shrinkLogs limit turn row.id = turn := by
          unfold shrinkLogs
          rw [if_neg fits, directory]
        rw [same, List.filter_cons, directory, if_neg (by simp)]
        exact ih safe distinct.2 later names total
      | some _ =>
        obtain ⟨fine, state⟩ := shrinkLogs_evicts safe found ended fits directory names total
        have apart : ∀ other ∈ rows, other.id ∉ [row.id] := fun other member listed =>
          distinct.1 (List.mem_singleton.mp listed ▸ List.mem_map_of_mem member)
        obtain ⟨evicted, rest, next, evicts, deletes, done, isDone⟩ :=
          ih fine distinct.2 (fun other member => by
            rw [state, Db.getTask_withoutTasks, if_neg (apart other member)]
            exact later other member)
          (by rw [state]; exact Logs.distinct_without names) (by rw [state])
        rw [state] at evicts deletes isDone
        have candidates : rows.filter
          (fun other => ((turn.state.logs.without [row.id]).lookup other.id).isSome) =
            rows.filter (fun other => (turn.state.logs.lookup other.id).isSome) :=
          List.filter_congr (fun other member => by rw [Logs.lookup_without (apart other member)])
        rw [candidates] at evicts
        refine ⟨row :: evicted, rest, next, ?_,
          (deletes_withoutTasks _ [row.id]).trans deletes, done, ?_⟩
        · rw [List.filter_cons, directory, Option.isSome_some, if_pos rfl]
          exact .cons (by omega) evicts
        · rw [isDone]
          dsimp only
          rw [← Logs.without_append, List.append_assoc]
          rfl

/-- Unlinking the instance files touches neither the tables nor the logs. -/
theorem unlinks_state (ids : List TaskId) (safe : turn.Safe) :
    (ids.foldl (fun turn id =>
      turn.call (fun u => { u with unlinked := u.unlinked ++ [id] })) turn).Safe ∧
    (ids.foldl (fun turn id =>
      turn.call (fun u => { u with unlinked := u.unlinked ++ [id] })) turn).state.db =
      turn.state.db ∧
    (ids.foldl (fun turn id =>
      turn.call (fun u => { u with unlinked := u.unlinked ++ [id] })) turn).state.logs =
      turn.state.logs := by
  induction ids generalizing turn with
  | nil => exact ⟨safe, rfl, rfl⟩
  | cons id rest ih =>
    have called := @Turn.Safe.call _ turn (fun u => { u with unlinked := u.unlinked ++ [id] }) safe
    obtain ⟨done, db, logs⟩ := ih called.1
    exact ⟨done, db.trans (by rw [called.2]), logs.trans (by rw [called.2])⟩

/-- The ended tasks, oldest first. -/
def Db.oldestEnded (db : Db) : List TaskRecord :=
  (db.tasks.rows.filter (fun row => row.state.terminal && row.endedAt.isSome)).insertionSort
    (fun a b => toLex (a.endedAt.getD "", a.id) ≤ toLex (b.endedAt.getD "", b.id))

/-- The tasks that ended before the cutoff. -/
def Db.expired (db : Db) (cutoff : String) : List TaskRecord :=
  db.tasks.rows.filter (fun row => row.state.terminal && row.endedAt.any (fun ended => ended < cutoff))

theorem mem_oldestEnded {db : Db} {row : TaskRecord} :
    row ∈ db.oldestEnded ↔ row ∈ db.tasks.rows ∧ row.state.terminal = true ∧ row.endedAt.isSome := by
  unfold Db.oldestEnded
  rw [List.mem_insertionSort, List.mem_filter, Bool.and_eq_true]

theorem mem_expired {db : Db} {cutoff : String} {row : TaskRecord} : row ∈ db.expired cutoff ↔
    row ∈ db.tasks.rows ∧ row.state.terminal = true ∧ ∃ ended, row.endedAt = some ended ∧
      ended < cutoff := by
  unfold Db.expired
  rw [List.mem_filter, Bool.and_eq_true, Option.any_eq_true]
  simp

theorem expired_length {db : Db} {cutoff : String} :
    (db.terminalTaskIdsBefore cutoff).length = (db.expired cutoff).length := List.length_map _

/-- A pass in which no call fails. -/
theorem maintain_evicts (cutoff : String) (limit : Nat) (monotonic : Seconds) (safe : turn.Safe)
    (few : (turn.state.db.expired cutoff).length ≤ Db.variableLimit)
    (names : (turn.state.logs.map Prod.fst).Nodup) :
    ∃ middle evicted rest,
      Deletes ((turn.state.db.expired cutoff).map TaskRecord.id) turn.state.db middle ∧
      Evicts limit (turn.state.logs.without ((turn.state.db.expired cutoff).map TaskRecord.id))
        (middle.oldestEnded.filter (fun row => ((turn.state.logs.without
          ((turn.state.db.expired cutoff).map TaskRecord.id)).lookup row.id).isSome)) evicted rest ∧
      Deletes (evicted.map TaskRecord.id) middle (maintain cutoff limit monotonic turn).state.db ∧
      (maintain cutoff limit monotonic turn).state.logs =
        turn.state.logs.without ((turn.state.db.expired cutoff ++ evicted).map TaskRecord.id) := by
  have deletes := deletes_retained turn.state.db cutoff cutoff cutoff
  unfold maintain
  dsimp only
  rw [purgeExpired_few (expired_length.symm ▸ few)]
  generalize isPurged : turn.call _ = purged
  have fine : purged.Safe := isPurged ▸ safe.call.1
  have state : purged.state = { turn.state with
      db := turn.state.db.retained cutoff cutoff cutoff
      deleted := (turn.state.db.expired cutoff).map TaskRecord.id } := isPurged ▸ safe.call.2
  have missing : ∀ id ∈ purged.state.deleted,
    (purged.call (fun u => u)).state.db.getTask id = none := by
    intro id member
    rw [state] at member
    rw [Turn.call_same, state, deletes.getTask]
    exact if_pos member
  obtain ⟨cleaned, isCleaned⟩ := removeLogs_state purged.state.deleted fine.call.1 missing
  generalize purged.state.deleted.foldl removeLog (purged.call (fun u => u)) =
    cleared at cleaned isCleaned
  rw [Turn.call_same, state] at isCleaned
  have counts := @Turn.Safe.call _ cleared (fun u => { u with total := u.logs.total }) cleaned
  have counted := @Turn.Safe.call _ _ (fun u => u) counts.1
  generalize (cleared.call (fun u => { u with total := u.logs.total })).call (fun u => u) =
    measured at counted
  have isMeasured := counted.2.trans counts.2
  rw [isCleaned] at isMeasured
  have oldest : measured.state.db.terminalTaskIdsOldest =
    measured.state.db.oldestEnded.map TaskRecord.id := rfl
  have stored : ∀ row ∈ measured.state.db.oldestEnded,
      measured.state.db.getTask row.id = some row ∧ row.state.terminal = true := by
    intro row member
    obtain ⟨listed, ended, _⟩ := mem_oldestEnded.mp member
    exact ⟨Tasks.get?_of_mem listed, ended⟩
  obtain ⟨evicted, rest, next, evicts, evictions, shrunk, isShrunk⟩ := @evicts_shrinkLogs _ limit
    measured.state.db.oldestEnded counted.1 (oldest ▸ (oldest_stored _).1) stored
    (by rw [isMeasured]; exact Logs.distinct_without names) (by rw [isMeasured])
  rw [oldest]
  generalize (measured.state.db.oldestEnded.map TaskRecord.id).foldl (shrinkLogs limit) measured =
    last at shrunk isShrunk
  obtain ⟨done, db, logs⟩ := unlinks_state last.state.deleted shrunk
  rw [done.set.2]
  dsimp only
  rw [db, logs, isShrunk]
  dsimp only
  rw [isMeasured] at evicts evictions ⊢
  refine ⟨_, evicted, rest, deletes, evicts, evictions, ?_⟩
  rw [List.map_append, Logs.without_append]

end Passes

/-- The directory `logs`, in which names are distinct. -/
structure LogFolder where
  entries : Logs
  distinct : (entries.map Prod.fst).Nodup

/-- The order in which ended tasks are evicted. -/
def TaskRecord.endKey (row : TaskRecord) : String ×ₗ TaskId := toLex (row.endedAt.getD "", row.id)

theorem sorted_oldestEnded (db : Db) : db.oldestEnded.Pairwise (fun a b => a.endKey < b.endKey) := by
  have weak : db.oldestEnded.Pairwise (fun a b => a.endKey ≤ b.endKey) :=
    List.pairwise_insertionSort (fun a b : TaskRecord => a.endKey ≤ b.endKey) _
  have distinct : db.oldestEnded.Pairwise (fun a b => a.id ≠ b.id) :=
    List.pairwise_map.mp (oldest_stored db).1
  refine (weak.and distinct).imp (fun both => lt_of_le_of_ne both.1 (fun same => both.2 ?_))
  exact congrArg (fun key => (ofLex key).2) same

/-- Stored rows are told apart by their ids. -/
theorem mem_ids {db : Db} {rows : List TaskRecord} (stored : ∀ row ∈ rows, row ∈ db.tasks.rows)
    {row : TaskRecord}
    (member : row ∈ db.tasks.rows) : row.id ∈ rows.map TaskRecord.id ↔ row ∈ rows := by
  constructor
  · intro listed
    obtain ⟨other, isOther, same⟩ := List.mem_map.mp listed
    have found := Tasks.get?_of_mem (stored other isOther)
    rw [same, Tasks.get?_of_mem member] at found
    cases found
    exact isOther
  · exact List.mem_map_of_mem

/-- What one pass may remove and what it must: it keeps every queued and active task with its log,
deletes every task that ended before the cutoff, then evicts ended tasks with a log directory, oldest
first, exactly while the logs are too large. Nothing left in the tables refers to a deleted task, and
a batch goes with its last task. -/
structure Removes (db : Db) (folder : LogFolder) (before : Datetime) (limit : Nat)
    (pass : Turn Upkeep) : Prop where
  fine : pass.raised = false
  spared : ∀ row ∈ db.tasks.rows, row.state.terminal = false → pass.state.db.getTask row.id = some row ∧
    pass.state.logs.lookup row.id = folder.entries.lookup row.id
  chosen : ∃ expired evicted rest : List TaskRecord,
    (∀ row, row ∈ expired ↔ row ∈ db.tasks.rows ∧ row.state.terminal = true ∧
      ∃ ended, row.endedAt = some ended ∧ ended < before.isoformat) ∧
    (∀ row ∈ db.tasks.rows, row.state.terminal = true → ∀ ended : Datetime,
      row.endedAt = some ended.isoformat → (row ∈ expired ↔ ended.fields < before.fields)) ∧
    (∀ row, row ∈ evicted ++ rest ↔ row ∈ db.tasks.rows ∧ row.state.terminal = true ∧
      row.endedAt.isSome ∧ row ∉ expired ∧ (folder.entries.lookup row.id).isSome) ∧
    (evicted ++ rest).Pairwise (fun a b => a.endKey < b.endKey) ∧
    (∀ front row back, evicted = front ++ row :: back →
      limit < (folder.entries.without ((expired ++ front).map TaskRecord.id)).total) ∧
    (rest = [] ∨ (folder.entries.without ((expired ++ evicted).map TaskRecord.id)).total ≤ limit) ∧
    Deletes ((expired ++ evicted).map TaskRecord.id) db pass.state.db ∧
    pass.state.logs = folder.entries.without ((expired ++ evicted).map TaskRecord.id)

section Whole
variable {db : Db} {folder : LogFolder} {before : Datetime} {limit : Nat}
  {monotonic lastCleanup : Seconds} {turn : Turn Upkeep}

/-- A pass whose first statement can name every expired task. -/
theorem removes_few (few : (db.expired before.isoformat).length ≤ Db.variableLimit) :
    Removes db folder before limit
    (maintain before.isoformat limit monotonic ⟨{ db, logs := folder.entries, lastCleanup }, none,
      false⟩) := by
  obtain ⟨middle, evicted, rest, first, evicts, second, logs⟩ :=
    @maintain_evicts ⟨{ db, logs := folder.entries, lastCleanup }, none,
      false⟩ before.isoformat limit monotonic
      ⟨rfl, rfl⟩ few folder.distinct
  have tables := first.trans second
  rw [← List.map_append] at tables
  have candidates : ∀ row, row ∈ evicted ++ rest ↔ row ∈ db.tasks.rows ∧ row.state.terminal = true ∧
      row.endedAt.isSome ∧ row ∉ db.expired before.isoformat ∧
        (folder.entries.lookup row.id).isSome := by
    intro row
    have expiredStored : ∀ row ∈ db.expired before.isoformat, row ∈ db.tasks.rows :=
      fun row listed => (mem_expired.mp listed).1
    rw [← evicts.order, List.mem_filter, mem_oldestEnded, first.tasks, List.mem_filter,
      decide_eq_true_eq]
    constructor
    · rintro ⟨⟨⟨member, kept⟩, ended, stamped⟩, held⟩
      rw [Logs.lookup_without kept] at held
      exact ⟨member, ended, stamped, fun listed =>
        kept ((mem_ids expiredStored member).mpr listed), held⟩
    · rintro ⟨member, ended, stamped, kept, held⟩
      have apart := mt (mem_ids expiredStored member).mp kept
      refine ⟨⟨⟨member, apart⟩, ended, stamped⟩, ?_⟩
      rw [Logs.lookup_without apart]
      exact held
  have deleted : ∀ row ∈ db.expired before.isoformat ++ evicted, row ∈ db.tasks.rows ∧
    row.state.terminal = true := by
    intro row listed
    obtain old | exceeds := List.mem_append.mp listed
    · exact ⟨(mem_expired.mp old).1, (mem_expired.mp old).2.1⟩
    · have candidate := (candidates row).mp (List.mem_append_left _ exceeds)
      exact ⟨candidate.1, candidate.2.1⟩
  refine ⟨(safe_maintain ⟨rfl, rfl⟩ (expired_length.symm ▸ few)).fine, fun row member live =>
    ?_, db.expired before.isoformat,
    evicted, rest, fun row => mem_expired, fun row member ended time isTime => ?_, candidates, ?_,
    fun front row back same => ?_, ?_, tables, logs⟩
  · have kept : row.id ∉ (db.expired before.isoformat ++ evicted).map TaskRecord.id := by
      intro listed
      have ended := (deleted row
        ((mem_ids (fun row listed => (deleted row listed).1) member).mp listed)).2
      rw [live] at ended
      cases ended
    constructor
    · rw [tables.getTask, if_neg kept]
      exact Tasks.get?_of_mem member
    · rw [logs]
      exact Logs.lookup_without kept
  · rw [mem_expired, ← Datetime.isoformat_lt]
    constructor
    · rintro ⟨_, _, text, isText, early⟩
      rw [isTime, Option.some.injEq] at isText
      rw [isText]
      exact early
    · exact fun early => ⟨member, ended, _, isTime, early⟩
  · rw [← evicts.order]
    exact (sorted_oldestEnded middle).sublist List.filter_sublist
  · rw [List.map_append, Logs.without_append]
    exact evicts.exceeds front row back same
  · rw [List.map_append, Logs.without_append]
    exact evicts.stops

/-- A pass that has raised does nothing more. -/
theorem removeLog_raised (raised : turn.raised = true) (id : TaskId) : removeLog turn id = turn := by
  unfold removeLog
  split
  · rfl
  · rw [Turn.call_of_raised raised, Turn.call_of_raised raised]

theorem shrinkLogs_raised (raised : turn.raised = true) (id : TaskId) :
    shrinkLogs limit turn id = turn := by
  obtain ⟨state, faults, stopped⟩ := turn
  cases raised
  unfold shrinkLogs
  split
  · rfl
  · split
    · rfl
    · split <;> rfl

theorem foldl_stopped {f : Turn Upkeep → TaskId → Turn Upkeep} (idle : ∀ id, f turn id = turn)
    (ids : List TaskId) :
    ids.foldl f turn = turn := by
  induction ids with
  | nil => rfl
  | cons id rest ih => rw [List.foldl_cons, idle, ih]

/-- More expired tasks than one statement can name: the pass raises and removes nothing. -/
theorem maintain_many (many : Db.variableLimit < (db.expired before.isoformat).length) :
    maintain before.isoformat limit monotonic
      ⟨{ db, logs := folder.entries, lastCleanup }, none, false⟩ =
      ⟨{ db, logs := folder.entries, lastCleanup }, none, true⟩ := by
  have refused : purgeExpired before.isoformat
    ⟨{ db, logs := folder.entries, lastCleanup }, none, false⟩ =
      ⟨{ db, logs := folder.entries, lastCleanup }, none, true⟩ := by
    unfold purgeExpired
    rw [Db.purgeRetention_eq, if_neg (by rw [expired_length]; exact Nat.not_le.mpr many)]
    rfl
  unfold maintain
  rw [refused]
  generalize isStopped :
    (⟨{ db, logs := folder.entries, lastCleanup }, none, true⟩ : Turn Upkeep) = stopped
  have raised : stopped.raised = true := isStopped ▸ rfl
  have unlinks := fun ids => @foldl_stopped stopped (fun turn id =>
    turn.call (fun u => { u with unlinked := u.unlinked ++ [id] }))
      (fun _ => Turn.call_of_raised raised) ids
  simp only [Turn.call_of_raised raised, foldl_stopped (removeLog_raised raised),
    foldl_stopped (shrinkLogs_raised raised),
    unlinks]
  rw [Turn.set, if_pos raised]

/-- One pass, whatever the tables and the log directories hold, removes what it may and must exactly
when one statement can name every expired task. Otherwise it raises, and nothing is removed. -/
theorem retention_removes (db : Db) (folder : LogFolder) (before : Datetime) (limit : Nat)
    (monotonic lastCleanup : Seconds) : ∃ pass, maintain before.isoformat limit monotonic
      ⟨{ db, logs := folder.entries, lastCleanup }, none, false⟩ = pass ∧
    (Removes db folder before limit pass ↔ (db.expired before.isoformat).length ≤ Db.variableLimit) ∧
    (Db.variableLimit < (db.expired before.isoformat).length → pass.raised = true ∧ pass.state.db = db ∧
      pass.state.logs = folder.entries) := by
  refine ⟨_, rfl, ⟨fun removes => ?_, removes_few⟩, fun many => ?_⟩
  · by_contra many
    have raised := removes.fine
    rw [maintain_many (by omega)] at raised
    cases raised
  · rw [maintain_many many]
    exact ⟨rfl, rfl, rfl⟩

end Whole

section Crowded

/-- A task is submitted and cancelled out of the queue. -/
def Db.withCancelled (db : Db) (now : String) (id : TaskId) : Option Db :=
  (db.createTask now id (.keyed [])).map (fun db =>
    (db.transition now id [.queued] .cancelled [.endedAt now, .interruptStage .queued]).1)

def numberedId (n : Nat) : TaskId := String.ofList (List.replicate n 'a')

theorem numberedId_injective : Function.Injective numberedId := by
  intro m n same
  have lengths := congrArg (fun id : TaskId => id.toList.length) same
  simpa [numberedId] using lengths

/-- So many tasks one after the other. -/
def Db.crowd (now : String) : Nat → Option Db
  | 0 => some .empty
  | n + 1 => (crowd now n).bind (fun db => db.withCancelled now (numberedId n))

variable {now : String}

/-- A database whose tasks have all been cancelled gets one more of them. -/
theorem withCancelled_some {db : Db} {id : TaskId} (fresh : id ∉ db.tasks.rows.map TaskRecord.id) :
    ∃ next row, db.withCancelled now id = some next ∧ next.tasks.rows = db.tasks.rows ++ [row] ∧
      row.id = id ∧
      row.state = .cancelled ∧ row.endedAt = some now := by
  obtain ⟨status, shown⟩ := Option.isSome_iff_exists.mp (displayable_nil .queued none none)
  obtain ⟨ended, shows⟩ := Option.isSome_iff_exists.mp (displayable_nil .cancelled none (some .queued))
  let row := TaskRecord.fresh id (.keyed []) now status
  obtain ⟨tasks, inserted⟩ : ∃ tasks, db.tasks.insert row = some tasks := by
    have unused : row.id ∉ db.tasks.rows.map TaskRecord.id := fresh
    unfold Tasks.insert
    rw [dif_neg unused]
    exact ⟨_, rfl⟩
  have appended := (Tasks.insert_some inserted).2
  let created : Db :=
    { db with tasks, journal := db.journal ++ [(id, TaskState.queued)] }.addEvent now (some id)
    (lifecycleKind .queued)
  have creates : db.createTask now id (.keyed []) = some created := by
    simp only [Db.createTask, Db.insertTask, TaskCreate.keyed, shown, Option.bind_eq_bind,
      Option.bind_some]
    exact congrArg (fun tasks => Option.bind tasks _) inserted
  have found : created.getTask id = some row := by
    have same := @Tasks.get?_insert _ id _ _ inserted
    exact same.trans (if_pos rfl)
  have moves : (created.transition now id [.queued] .cancelled
    [.endedAt now, .interruptStage .queued]).1 =
      created.move now id .cancelled [.endedAt now, .interruptStage .queued] ended := by
    have isStatus : displayStatus row.pluginSnapshot .cancelled
      (row.assign [.endedAt now, .interruptStage .queued]).exitCode
        (row.assign [.endedAt now, .interruptStage .queued]).interruptStage = some ended := shows
    have queued : row.state ∈ [TaskState.queued] := List.mem_singleton_self _
    simp only [Db.transition, found, List.cons_ne_nil, if_false, isStatus, if_pos queued]
    rfl
  refine ⟨created.move now id .cancelled [.endedAt now, .interruptStage .queued] ended,
    row.moved .cancelled [.endedAt now, .interruptStage .queued] ended, ?_, ?_, rfl, rfl, rfl⟩
  · rw [Db.withCancelled, creates, Option.map_some, moves]
  · have others : ∀ old ∈ db.tasks.rows, old.id ≠ id := fun old member same =>
      fresh (same ▸ List.mem_map_of_mem member)
    show List.map _ tasks.rows = _
    rw [appended, List.map_append, List.map_singleton, if_pos (show row.id = id from rfl)]
    congr 1
    exact (List.map_congr_left (fun old member => if_neg (others old member))).trans (List.map_id _)

theorem crowd_some (n : Nat) : ∃ db, Db.crowd now n = some db ∧
    db.tasks.rows.map TaskRecord.id = (List.range n).map numberedId ∧
    ∀ row ∈ db.tasks.rows, row.state = .cancelled ∧ row.endedAt = some now := by
  induction n with
  | zero => exact ⟨_, rfl, rfl, fun _ never => absurd never List.not_mem_nil⟩
  | succ n ih =>
    obtain ⟨db, isDb, ids, ended⟩ := ih
    have fresh : numberedId n ∉ db.tasks.rows.map TaskRecord.id := by
      rw [ids, List.mem_map_of_injective numberedId_injective]
      exact List.not_mem_range_self
    obtain ⟨next, row, isNext, rows, isId, cancelled, stamped⟩ := @withCancelled_some now db _ fresh
    refine ⟨next, by rw [Db.crowd, isDb, Option.bind_some, isNext], ?_, fun other member => ?_⟩
    · rw [rows, List.map_append, ids, List.range_succ, List.map_append, List.map_singleton,
        List.map_singleton, isId]
    · rw [rows] at member
      obtain old | new := List.mem_append.mp member
      · exact ended other old
      · cases List.mem_singleton.mp new
        exact ⟨cancelled, stamped⟩

def newYear : Datetime := ⟨2026, 1, 1, 0, 0, 0, 0, by decide, by decide⟩

def spring : Datetime := ⟨2026, 4, 1, 0, 0, 0, 0, by decide, by decide⟩

/-- Tasks that were submitted and cancelled months ago, one more than a statement can name: the pass
raises, and all of them stay. -/
theorem retention_refuses : ∃ db, Db.crowd newYear.isoformat 32767 = some db ∧
    maintain spring.isoformat 0 0 ⟨{ db, logs := [], lastCleanup := 0 }, none, false⟩ =
      ⟨{ db, logs := [], lastCleanup := 0 }, none, true⟩ ∧
    ¬ Removes db ⟨[], List.nodup_nil⟩ spring 0
      (maintain spring.isoformat 0 0 ⟨{ db, logs := [], lastCleanup := 0 }, none, false⟩) := by
  obtain ⟨db, isDb, ids, ended⟩ := @crowd_some newYear.isoformat 32767
  have early : newYear.isoformat < spring.isoformat := (Datetime.isoformat_lt _ _).mpr (by decide)
  have all : db.expired spring.isoformat = db.tasks.rows := by
    refine List.filter_eq_self.mpr (fun row member => ?_)
    rw [(ended row member).1, (ended row member).2]
    exact decide_eq_true early
  have count : db.tasks.rows.length = 32767 := by
    have lengths := congrArg List.length ids
    simpa using lengths
  have many : Db.variableLimit < (db.expired spring.isoformat).length := by
    rw [all, count]
    decide
  have raises := @maintain_many db ⟨[], List.nodup_nil⟩ spring 0 0 0 many
  refine ⟨db, isDb, raises, fun removes => ?_⟩
  have fine := removes.fine
  rw [raises] at fine
  cases fine

end Crowded

end LocalFlow
