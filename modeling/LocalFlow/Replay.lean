import LocalFlow.Batches

/-! Replays of a reserved batch read every task of the stored response, so they live as long as
retention spares these tasks. -/
namespace LocalFlow
open Faults Transition

namespace Store

/-- Every task of every stored response is stored. -/
def Replayable (store : Store) : Prop :=
  ∀ row ∈ store.db.idempotency, ∀ id ∈ row.response.taskIds, (store.db.getTask id).isSome

/-- Retention deletes no task of a response whose reservation it keeps. -/
def Spares (store : Store) : StoreAct → Prop
  | .purgeRetention tasksBefore _ idempotencyBefore => ∀ row ∈ store.db.idempotency,
    ¬ row.createdAt < idempotencyBefore → ∀ id ∈ row.response.taskIds,
      id ∉ store.db.terminalTaskIdsBefore tasksBefore
  | .purgeTerminalTask id => ∀ row ∈ store.db.idempotency, id ∈ row.response.taskIds →
    ∀ task, store.db.getTask id = some task → task.state.terminal = false
  | _ => True

variable {s t : Store}

theorem Replayable.congr (listed : Replayable s) (idempotency : t.db.idempotency = s.db.idempotency)
    (stored : ∀ id, (s.db.getTask id).isSome → (t.db.getTask id).isSome) : Replayable t := by
  intro row member id named
  rw [idempotency] at member
  exact stored id (listed row member id named)

theorem Replayable.edit (listed : Replayable s) {asked : Option (String × String)}
    (edit : Edit asked s t) : Replayable t := by
  cases edit with
  | task stored => exact listed.congr stored.idempotency (fun _ => stored.appended.isSome)
  | @batch call entries t stored =>
    intro row member id named
    rw [stored.idempotency, List.mem_append] at member
    rcases member with old | new
    · exact stored.appended.isSome (listed row old id named)
    · unfold BatchCall.reserves at new
      obtain ⟨key, _, rfl⟩ := Option.map_eq_some_iff.mp (Option.mem_toList.mp new)
      have entered : id ∈ entries.map Entry.id := stored.ids ▸ named
      obtain ⟨entry, is, rfl⟩ := List.mem_map.mp entered
      rw [stored.appended.adds is]
      rfl
  | receipt taskId createdAt keyed =>
    unfold putReceipt
    split
    · exact listed
    · exact listed
  | update revised =>
    exact listed.congr revised.idempotency (fun id found => (revised.stored id).trans found)

theorem Replayable.edits (listed : Replayable s) {asked : Option (String × String)}
    (edits : Edits asked s t) : Replayable t := by
  induction edits with
  | refl => exact listed
  | tail _ edit ih => exact ih.edit edit

/-- Age retention forgets the old reservations together with the tasks it deletes. -/
theorem Replayable.purged {tasksBefore eventsBefore idempotencyBefore : String} (listed : Replayable s)
    (spares : s.Spares (.purgeRetention tasksBefore eventsBefore idempotencyBefore)) :
    Replayable (s.apply (.purgeRetention tasksBefore eventsBefore idempotencyBefore)) := by
  obtain same | same := s.purged_cases tasksBefore eventsBefore idempotencyBefore
  · rw [apply, same]
    exact listed
  rw [apply, same]
  intro row member id named
  have kept : row ∈ s.db.idempotency ∧ ¬ row.createdAt < idempotencyBefore := by
    simp only [Db.retained] at member
    split at member
    · simpa using member
    · simpa [Db.withoutTasks] using member
  have safe := spares row kept.1 kept.2 id named
  have before := listed row kept.1 id named
  simp only [Db.retained]
  split
  · exact before
  · change ((s.db.withoutTasks _).getTask id).isSome = true
    rw [Db.getTask_withoutTasks, if_neg safe]
    exact before

/-- Quota eviction looks at no reservation. -/
theorem Replayable.evicted {id : TaskId} (listed : Replayable s)
    (spares : s.Spares (.purgeTerminalTask id)) :
    Replayable (s.apply (.purgeTerminalTask id)) := by
  simp only [apply, Db.purgeTerminalTask_eq]
  cases found : s.db.getTask id with
  | none => exact listed
  | some task =>
    simp only [Option.map_some, Option.getD_some]
    split
    · rename_i ended
      intro row member other named
      change ((s.db.withoutTasks [id]).getTask other).isSome = true
      rw [Db.getTask_withoutTasks]
      split
      · rename_i same
        rw [List.mem_singleton] at same
        subst same
        rw [spares row member named task found] at ended
        cases ended
      · exact listed row member other named
    · exact listed

theorem Replayable.step {act : StoreAct} (listed : Replayable s)
    (step : Guarded Step Spares s act t) : Replayable t := by
  obtain ⟨rfl, spares⟩ := step
  rcases apply_cases s act with ⟨faults, clock, rfl⟩ | deletes | edits
  · rcases migrateLegacySeeds_cases clock faults s with same | ⟨allocations, ids, migrated⟩
    · have rest : s.apply (.restart faults clock) = s := same
      rw [rest]
      exact listed
    · exact listed.congr migrated.idempotency (fun id found => (migrated.stored id).trans found)
  · cases act with
    | purgeRetention tasksBefore eventsBefore idempotencyBefore => exact listed.purged spares
    | purgeTerminalTask id => exact listed.evicted spares
    | _ => cases deletes
  · exact listed.edits edits

theorem replayable_empty : Replayable .empty := by
  intro row member
  cases member

theorem mapM_isSome {α β : Type} {f : α → Option β} {items : List α} :
    (items.mapM f).isSome = true ↔ ∀ item ∈ items, (f item).isSome = true := by
  induction items with
  | nil => simp
  | cons item rest ih =>
    rw [List.forall_mem_cons, ← ih, List.mapM_cons]
    cases f item with
    | none => simp
    | some value =>
      cases rest.mapM f with
      | none => simp
      | some values => simp

theorem succeeds_findReservation {call : BatchCall} :
    (findReservation call).Succeeds s (call.reserved s.db) s := by
  unfold findReservation BatchCall.reserved
  cases call.reservation with
  | none => exact Work.succeeds_pure
  | some key => exact Work.succeeds_read rfl

/-- A repeated call under a reserved key, with nothing failing, returns the stored response exactly
while all of its tasks are stored. -/
theorem replay_iff {call : BatchCall} {row : IdempotencyRecord}
    (reserved : call.reserved s.db = some row) :
    (∃ records, (createBatch call).Succeeds s (row.response.batchId, records) s ∧
      records.map TaskRecord.id = row.response.taskIds) ↔
    ∀ id ∈ row.response.taskIds, (s.db.getTask id).isSome := by
  constructor
  · rintro ⟨records, succeeds, _⟩
    rcases returns_createBatch succeeds.returns with ⟨other, found, _, _, listed⟩ | ⟨missing, _⟩
    · rw [reserved] at found
      cases found
      exact mapM_isSome.mp (by rw [listed]; rfl)
    · rw [reserved] at missing
      cases missing
  · intro stored
    obtain ⟨records, listed⟩ := Option.isSome_iff_exists.mp (mapM_isSome.mpr stored)
    refine ⟨records, ?_, mapM_getTask_ids listed⟩
    have previous : (Work.transaction (batchTransaction call)).Succeeds s (some row.response) s := by
      apply Work.succeeds_transaction
      refine Work.succeeds_bind succeeds_findReservation ?_
      rw [reserved]
      exact Work.succeeds_pure
    refine Work.succeeds_bind previous ?_
    refine Work.succeeds_bind ?_ Work.succeeds_pure
    exact Work.succeeds_each_read listed

end Store

section Runs
open Store
variable {acts : List StoreAct} {s : Store}

/-- While retention spares the tasks of every reservation it keeps, a repeated call under the key
stores nothing and returns the stored batch id and task ids. -/
theorem replay_survives (run : Run (Guarded Store.Step Spares) .empty acts s) {call : BatchCall}
    {row : IdempotencyRecord} (reserved : call.reserved s.db = some row) :
    ∃ records, (createBatch call).Succeeds s (row.response.batchId, records) s ∧
      records.map TaskRecord.id = row.response.taskIds := by
  have listed : Replayable s := run.invariant (fun listed step => listed.step step) replayable_empty
  apply (replay_iff reserved).mpr
  apply listed row
  unfold BatchCall.reserved at reserved
  obtain ⟨key, _, found⟩ := Option.bind_eq_some_iff.mp reserved
  exact List.mem_of_find?_eq_some found

/-- A task submitted alone. -/
def aloneCall (now : String) (taskId : TaskId) : TaskCall :=
  ⟨some (TaskCreate.keyed []).draft, now, fun _ => 5, taskId, now⟩

/-- The task is withdrawn. -/
def withdrawnAt (now : String) (id : TaskId) : StoreAct :=
  .transition now id [.queued] .cancelled [.endedAt now] none (fun live => by cases live) (by decide)

/-- Two tasks outside the batch end, one of them a year before the batch, and the task of the batch. -/
def endedAround : List StoreAct :=
  [.post none "agent" none (aloneCall "2025" "old"), withdrawnAt "2025" "old",
    .post none "agent" none (aloneCall "2026" "idle"), withdrawnAt "2026" "idle",
    .batch none (oneTaskCall "a"), withdrawnAt "2026" "a"]

def aged : Store := endedAround.foldl Store.apply .empty

def agedOut : StoreAct := .purgeRetention "2026" "2026" "2026"

/-- Age retention deletes the old task and the quota evicts the other; the batch is returned again. -/
theorem replay_survives_one : ∃ s row records,
    Run (Guarded Store.Step Spares) .empty (endedAround ++ [agedOut, .purgeTerminalTask "idle"]) s ∧
    (aged.db.getTask "old").isSome ∧ s.db.getTask "old" = none ∧
    (aged.db.getTask "idle").isSome ∧ s.db.getTask "idle" = none ∧
    (createBatch (oneTaskCall "c")).Succeeds s (row, records) s := by
  have early : Run (Guarded Store.Step Spares) .empty endedAround aged :=
    .cons ⟨rfl, trivial⟩ (.cons ⟨rfl, trivial⟩ (.cons ⟨rfl, trivial⟩ (.cons ⟨rfl, trivial⟩
      (.cons ⟨rfl, trivial⟩ (.single ⟨rfl, trivial⟩)))))
  have ages : aged.Spares agedOut := by
    show ∀ row ∈ aged.db.idempotency, ¬ row.createdAt < "2026" → ∀ id ∈ row.response.taskIds,
      id ∉ aged.db.terminalTaskIdsBefore "2026"
    decide +kernel
  have evicts : ∀ row ∈ (aged.apply agedOut).db.idempotency, "idle" ∉ row.response.taskIds := by
    decide +kernel
  have spares : (aged.apply agedOut).Spares (.purgeTerminalTask "idle") :=
    fun row member named => absurd named (evicts row member)
  have run := early.append (.cons ⟨rfl, ages⟩ (.single ⟨rfl, spares⟩))
  have stored : ((aged.db.getTask "old").isSome && (aged.db.getTask "idle").isSome &&
      (((aged.apply agedOut).apply (.purgeTerminalTask "idle")).db.getTask "old").isNone &&
      (((aged.apply agedOut).apply (.purgeTerminalTask "idle")).db.getTask "idle").isNone &&
      ((oneTaskCall "c").reserved
        ((aged.apply agedOut).apply (.purgeTerminalTask "idle")).db).isSome) = true := by
    decide +kernel
  simp only [Bool.and_eq_true, Option.isNone_iff_eq_none] at stored
  obtain ⟨⟨⟨⟨old, idle⟩, noOld⟩, noIdle⟩, reserved⟩ := stored
  obtain ⟨row, found⟩ := Option.isSome_iff_exists.mp reserved
  obtain ⟨records, succeeds, _⟩ := replay_survives run found
  exact ⟨_, _, records, run, old, noOld, idle, noIdle, succeeds⟩

/-- The only task of a batch ends and is evicted; its reservation lives on. -/
def evictedBatch : List StoreAct :=
  [.batch none (oneTaskCall "a"),
    .transition "2026" "a" [.queued] .cancelled [.endedAt "2026"] none (by decide) (by decide),
    .purgeTerminalTask "a"]

theorem replay_raises : ∃ s, Run Store.Step .empty evictedBatch s ∧
    ((oneTaskCall "c").reserved s.db).isSome = true ∧
    (createBatch (oneTaskCall "c") none s).value = none := by
  let s := evictedBatch.foldl Store.apply .empty
  have raises : (((oneTaskCall "c").reserved s.db).isSome &&
      (createBatch (oneTaskCall "c") none s).value.isNone) = true := by decide +kernel
  obtain ⟨reserved, raised⟩ := Bool.and_eq_true _ _ |>.mp raises
  exact ⟨s, .cons rfl (.cons rfl (.cons rfl (.nil _))), reserved, Option.isNone_iff_eq_none.mp raised⟩

end Runs
end LocalFlow
