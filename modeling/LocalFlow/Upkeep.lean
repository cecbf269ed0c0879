import LocalFlow.Scheduler

/-! What `maintain` does to the stored tasks: it deletes ended ones and resets the size of a removed
log. It raises only when a call does. -/
namespace LocalFlow
open Faults
variable {db : Db} {upkeep : Upkeep} {turn : Turn Upkeep} {cutoff : String} {limit : Nat}
  {monotonic : Seconds} {id : TaskId}

/-- A row up to the size of its log. -/
def TaskRecord.unsized (row : TaskRecord) : TaskRecord := { row with logSize := 0 }

/-- The database at some point of a `maintain` that began with `db`. -/
structure Tended (db : Db) (upkeep : Upkeep) : Prop where
  row : ∀ id new, upkeep.db.getTask id = some new →
    ∃ old, db.getTask id = some old ∧ old.unsized = new.unsized
  kept : ∀ id old, db.getTask id = some old → old.state.terminal = false →
    (upkeep.db.getTask id).isSome
  gone : ∀ id, id ∈ upkeep.deleted ∨ id ∈ upkeep.unlinked → upkeep.db.getTask id = none

namespace Tended

theorem congr {next : Upkeep} (tended : Tended db upkeep) (same : next.db = upkeep.db)
    (gone : ∀ id, id ∈ next.deleted ∨ id ∈ next.unlinked → upkeep.db.getTask id = none) :
    Tended db next where
  row := by
    rw [same]
    exact tended.row
  kept := by
    rw [same]
    exact tended.kept
  gone := by
    rw [same]
    exact gone

theorem state (tended : Tended db upkeep) {new : TaskRecord}
    (found : upkeep.db.getTask id = some new) :
    ∃ old, db.getTask id = some old ∧ old.state = new.state := by
  obtain ⟨old, stored, same⟩ := tended.row id new found
  have states := congrArg TaskRecord.state same
  exact ⟨old, stored, states⟩

/-- Ended tasks may be deleted. -/
theorem delete {ids : List TaskId} (tended : Tended db upkeep)
    (ended : ∀ id ∈ ids, ∃ row, upkeep.db.getTask id = some row ∧ row.state.terminal = true)
    {next : Upkeep} (isDb : next.db.getTask = (upkeep.db.withoutTasks ids).getTask)
    (deleted : ∀ id, id ∈ next.deleted ∨ id ∈ next.unlinked →
      id ∈ ids ∨ id ∈ upkeep.deleted ∨ id ∈ upkeep.unlinked) : Tended db next where
  row id new found := by
    rw [isDb, Db.getTask_withoutTasks] at found
    split at found
    · cases found
    · exact tended.row id new found
  kept id old stored live := by
    rw [isDb, Db.getTask_withoutTasks]
    split
    · rename_i chosen
      obtain ⟨row, found, terminal⟩ := ended id chosen
      obtain ⟨old', stored', same⟩ := tended.state found
      rw [stored] at stored'
      cases stored'
      rw [same, terminal] at live
      cases live
    · exact tended.kept id old stored live
  gone id member := by
    rw [isDb, Db.getTask_withoutTasks]
    split
    · rfl
    · rename_i other
      exact tended.gone id ((deleted id member).resolve_left other)

theorem setLogSize (tended : Tended db upkeep) (size : Nat) :
    Tended db { upkeep with db := upkeep.db.setLogSize id size } := by
  have rows : ∀ other, (upkeep.db.setLogSize id size).getTask other = if other = id then
      (upkeep.db.getTask other).map (fun row => { row with logSize := size })
      else upkeep.db.getTask other := fun _ =>
    Tasks.get?_update (fun row => { row with logSize := size }) (fun _ => rfl)
  refine ⟨fun other new found => ?_, fun other old stored live => ?_, fun other member => ?_⟩
  · rw [rows] at found
    split at found
    · obtain ⟨middle, isMiddle, rfl⟩ := Option.map_eq_some_iff.mp found
      exact tended.row other middle isMiddle
    · exact tended.row other new found
  · have some_row := tended.kept other old stored live
    rw [rows]
    split <;> simpa using some_row
  · rw [rows, tended.gone other member]
    split <;> rfl

end Tended

section Effect

theorem tended_removeLog (tended : Tended db turn.state) (id : TaskId) :
    Tended db (removeLog turn id).state := by
  unfold removeLog
  split
  · exact tended
  · have removed : Tended db (turn.call (fun u => { u with logs := u.logs.remove id })).state :=
      Turn.call_keeps tended (tended.congr rfl tended.gone)
    exact Turn.call_keeps removed (removed.setLogSize 0)

theorem purgeTerminalTask_true {purged : Db} (done : db.purgeTerminalTask id = some (purged, true)) :
    ∃ row, db.getTask id = some row ∧ row.state.terminal = true ∧ purged = db.withoutTasks [id] := by
  rw [Db.purgeTerminalTask_eq] at done
  obtain ⟨row, found, same⟩ := Option.map_eq_some_iff.mp done
  split at same
  · rename_i ended
    cases same
    exact ⟨row, found, ended, rfl⟩
  · cases same

theorem tended_shrinkLogs (tended : Tended db turn.state) (id : TaskId) :
    Tended db (shrinkLogs limit turn id).state := by
  unfold shrinkLogs
  split
  · exact tended
  · split
    · exact tended
    · rename_i directory _
      split
      · exact tended
      · exact Turn.call_keeps tended tended
      · rename_i purged done
        obtain ⟨row, found, ended, rfl⟩ := purgeTerminalTask_true done
        have chosen : ∀ other ∈ [id], ∃ row, turn.state.db.getTask other = some row ∧
            row.state.terminal = true := fun other member => by
          obtain rfl := List.mem_singleton.mp member
          exact ⟨row, found, ended⟩
        generalize isFirst : turn.call
          (fun u => { u with db := turn.state.db.withoutTasks [id] }) = first
        have deleted : Tended db first.state :=
          isFirst ▸ Turn.call_keeps tended (tended.delete chosen rfl (fun _ => .inr))
        generalize isSecond : first.call (fun u => { u with logs := u.logs.remove id }) = second
        have removed : Tended db second.state :=
          isSecond ▸ Turn.call_keeps deleted (deleted.congr rfl deleted.gone)
        -- the id joins `deleted` only after both calls
        cases fine : second.raised with
        | true =>
          unfold Turn.set
          rw [if_pos fine]
          exact removed
        | false =>
          rw [Turn.set_state fine]
          rw [← isSecond] at fine
          obtain ⟨fineFirst, wasSecond⟩ := Turn.call_done fine
          rw [← isFirst] at fineFirst
          obtain ⟨_, wasFirst⟩ := Turn.call_done fineFirst
          refine tended.delete chosen ?_ (fun other member => ?_)
          · rw [← isSecond, wasSecond, ← isFirst, wasFirst]
          · rw [← isSecond, wasSecond, ← isFirst, wasFirst] at member
            simp only [List.mem_append, List.mem_singleton] at member
            obtain (old | rfl) | old := member
            · exact .inr (.inl old)
            · exact .inl (List.mem_singleton_self _)
            · exact .inr (.inr old)

theorem tended_foldl {f : Turn Upkeep → TaskId → Turn Upkeep}
    (each : ∀ turn id, Tended db turn.state → Tended db (f turn id).state) (ids : List TaskId)
    (turn : Turn Upkeep) (tended : Tended db turn.state) : Tended db (ids.foldl f turn).state := by
  induction ids generalizing turn with
  | nil => exact tended
  | cons id rest ih => exact ih _ (each turn id tended)

/-- Unlinking the files of deleted tasks. -/
theorem tended_unlink (ids : List TaskId) (turn : Turn Upkeep) (tended : Tended db turn.state)
    (gone : ∀ id ∈ ids, turn.state.db.getTask id = none) : Tended db (ids.foldl (fun turn id =>
      turn.call (fun u => { u with unlinked := u.unlinked ++ [id] })) turn).state := by
  induction ids generalizing turn with
  | nil => exact tended
  | cons id rest ih =>
    refine ih _ (Turn.call_keeps tended (tended.congr rfl ?_)) ?_
    · intro other member
      simp only [List.mem_append, List.mem_singleton] at member
      obtain old | old | rfl := member
      · exact tended.gone other (.inl old)
      · exact tended.gone other (.inr old)
      · exact gone other (by simp)
    · intro other member
      have same := turn.call_relates (fun u => { u with unlinked := u.unlinked ++ [id] })
        (R := fun u v : Upkeep => v.db = u.db) (fun _ => rfl) rfl
      rw [same]
      exact gone other (List.mem_cons_of_mem _ member)

theorem tended_maintain (start : Tended db turn.state) :
    Tended db (maintain cutoff limit monotonic turn).state := by
  unfold maintain
  dsimp only
  generalize isPurged : purgeExpired cutoff turn = purged
  have tended : Tended db purged.state := by
    rw [← isPurged]
    obtain raised | called := purgeExpired_cases cutoff turn
    · rw [raised]
      exact start
    rw [called]
    have chosen : ∀ id ∈ turn.state.db.terminalTaskIdsBefore cutoff,
        ∃ row, turn.state.db.getTask id = some row ∧ row.state.terminal = true :=
      fun id member => Db.purged_terminal member
    refine Turn.call_keeps start (start.delete chosen ?_ ?_)
    · unfold Db.retained
      dsimp only
      split
      · rename_i empty
        rw [List.isEmpty_iff.mp empty]
        funext id
        rw [Db.getTask_withoutTasks, if_neg (by simp)]
        rfl
      · rfl
    · rintro id (member | member)
      · exact .inl member
      · exact .inr (.inr member)
  have cleaned := tended_foldl (fun turn id tended => tended_removeLog tended id) purged.state.deleted
    (purged.call (fun u => u)) (Turn.call_keeps tended tended)
  generalize purged.state.deleted.foldl removeLog (purged.call (fun u => u)) = cleared at cleaned
  generalize isMeasured : (cleared.call (fun u => { u with total := u.logs.total })).call
    (fun u => u) = measured
  have counted : Tended db measured.state := by
    have total : Tended db (cleared.call (fun u => { u with total := u.logs.total })).state :=
      Turn.call_keeps cleaned (cleaned.congr rfl cleaned.gone)
    rw [← isMeasured]
    exact Turn.call_keeps total total
  have shrunk := tended_foldl
    (fun turn id tended => (tended_shrinkLogs tended id : Tended db (shrinkLogs limit turn id).state))
    measured.state.db.terminalTaskIdsOldest measured counted
  generalize measured.state.db.terminalTaskIdsOldest.foldl (shrinkLogs limit) measured = last at shrunk
  have unlinked := tended_unlink last.state.deleted last shrunk
    (fun id member => shrunk.gone id (.inl member))
  exact Turn.set_keeps unlinked (unlinked.congr rfl unlinked.gone)

end Effect

section Safe

theorem safe_foldl {S A : Type} {f : Turn S → A → Turn S}
    (each : ∀ turn a, turn.Safe → (f turn a).Safe) (items : List A) (turn : Turn S)
    (safe : turn.Safe) : (items.foldl f turn).Safe := by
  induction items generalizing turn with
  | nil => exact safe
  | cons a rest ih => exact ih _ (each turn a safe)

theorem safe_removeLog (safe : turn.Safe) (id : TaskId) : (removeLog turn id).Safe := by
  unfold removeLog
  split
  · exact safe
  · exact safe.call.1.call.1

/-- No task of the list has been deleted before its turn comes. -/
theorem safe_shrinkLogs (ids : List TaskId) (turn : Turn Upkeep) (safe : turn.Safe)
    (distinct : ids.Nodup) (stored : ∀ id ∈ ids, (turn.state.db.getTask id).isSome) :
    (ids.foldl (shrinkLogs limit) turn).Safe := by
  induction ids generalizing turn with
  | nil => exact safe
  | cons id rest ih =>
    rw [List.nodup_cons] at distinct
    have later : ∀ other ∈ rest, (turn.state.db.getTask other).isSome :=
      fun other member => stored other (List.mem_cons_of_mem _ member)
    rw [List.foldl_cons]
    unfold shrinkLogs
    split
    · exact ih _ safe distinct.2 later
    · split
      · exact ih _ safe distinct.2 later
      · rename_i directory _
        obtain ⟨row, found⟩ := Option.isSome_iff_exists.mp (stored id (by simp))
        split
        · rename_i missing
          simp [Db.purgeTerminalTask_eq, found] at missing
        · exact ih _ safe.call.1 distinct.2 (by rw [safe.call.2]; exact later)
        · rename_i purged done
          obtain ⟨_, _, _, rfl⟩ := purgeTerminalTask_true done
          refine ih _ safe.call.1.call.1.set.1 distinct.2 (fun other member => ?_)
          rw [safe.call.1.call.1.set.2, safe.call.1.call.2, safe.call.2]
          have apart : other ≠ id := fun same => distinct.1 (same ▸ member)
          simp only [Db.getTask_withoutTasks, List.mem_singleton, apart, if_false]
          exact later other member

theorem oldest_stored (db : Db) : db.terminalTaskIdsOldest.Nodup ∧
    ∀ id ∈ db.terminalTaskIdsOldest, (db.getTask id).isSome := by
  unfold Db.terminalTaskIdsOldest
  constructor
  · refine List.Nodup.perm ?_ ((List.perm_insertionSort _ _).map TaskRecord.id).symm
    exact db.tasks.primaryKey.sublist (List.filter_sublist.map _)
  · intro id member
    obtain ⟨row, listed, rfl⟩ := List.mem_map.mp member
    have stored := List.mem_of_mem_filter ((List.mem_insertionSort _).mp listed)
    have found : db.getTask row.id = some row := Tasks.get?_of_mem stored
    rw [found]
    rfl

/-- `maintain` raises nothing of its own while the expired tasks fit into one statement. -/
theorem safe_maintain (safe : turn.Safe)
    (few : (turn.state.db.terminalTaskIdsBefore cutoff).length ≤ Db.variableLimit) :
    (maintain cutoff limit monotonic turn).Safe := by
  unfold maintain
  dsimp only
  generalize isPurged : purgeExpired cutoff turn = purged
  have fine : purged.Safe := by
    rw [← isPurged, purgeExpired_few few]
    exact safe.call.1
  have cleaned := safe_foldl (fun turn id safe => safe_removeLog safe id) purged.state.deleted
    (purged.call (fun u => u)) fine.call.1
  generalize purged.state.deleted.foldl removeLog (purged.call (fun u => u)) = cleared at cleaned
  have measured : ((cleared.call (fun u => { u with total := u.logs.total })).call
      (fun u => u)).Safe := cleaned.call.1.call.1
  generalize (cleared.call (fun u => { u with total := u.logs.total })).call (fun u => u) = counted
    at measured
  obtain ⟨distinct, stored⟩ := oldest_stored counted.state.db
  have shrunk : (counted.state.db.terminalTaskIdsOldest.foldl (shrinkLogs limit) counted).Safe :=
    safe_shrinkLogs _ counted measured distinct stored
  generalize counted.state.db.terminalTaskIdsOldest.foldl (shrinkLogs limit) counted = last at shrunk
  exact (safe_foldl (fun turn id safe => safe.call.1) last.state.deleted last shrunk).set.1

end Safe
end LocalFlow
