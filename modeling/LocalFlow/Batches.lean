import LocalFlow.Storage.History

/-! Batches under an idempotency key: one reservation stands for one whole batch, whatever fails and
whoever calls again. -/
namespace LocalFlow
open Faults Transition

namespace Store

/-- Exactly one batch answers to the response, with its full and numbered task list. -/
structure Whole (db : Db) (response : BatchResponse) : Prop where
  one : ∃ batch, db.batches.filter (fun batch => batch.id = response.batchId) = [batch]
  numbers : db.batchTasks.filter (fun row => row.batchId = response.batchId) =
    numbered response.batchId response.taskIds 0
  stored : ∀ id ∈ response.taskIds, (db.getTask id).isSome

/-- Every numbered task belongs to a stored batch. -/
def Numbers (db : Db) : Prop := ∀ row ∈ db.batchTasks, ∃ batch ∈ db.batches, batch.id = row.batchId

/-- Every reservation stands for a whole batch. -/
structure Booked (store : Store) : Prop where
  numbers : Numbers store.db
  whole : ∀ row ∈ store.db.idempotency, Whole store.db row.response

variable {s t : Store}

/-- The other tables of the batches decide which batch a response stands for. -/
theorem Whole.congr {db next : Db} {response : BatchResponse} (whole : Whole db response)
    (batches : next.batches = db.batches) (batchTasks : next.batchTasks = db.batchTasks)
    (stored : ∀ id, (db.getTask id).isSome → (next.getTask id).isSome) : Whole next response where
  one := batches ▸ whole.one
  numbers := batchTasks ▸ whole.numbers
  stored := fun id member => stored id (whole.stored id member)

theorem Numbers.congr {db next : Db} (numbers : Numbers db) (batches : next.batches = db.batches)
    (batchTasks : next.batchTasks = db.batchTasks) : Numbers next := by
  rw [Numbers, batches, batchTasks]
  exact numbers

theorem Booked.congr (booked : Booked s) (batches : t.db.batches = s.db.batches)
    (batchTasks : t.db.batchTasks = s.db.batchTasks) (idempotency : t.db.idempotency = s.db.idempotency)
    (stored : ∀ id, (s.db.getTask id).isSome → (t.db.getTask id).isSome) : Booked t where
  numbers := booked.numbers.congr batches batchTasks
  whole := by
    rw [idempotency]
    exact fun row member => (booked.whole row member).congr batches batchTasks stored

theorem numbered_batchId {batchId : String} {ids : List TaskId} {n : Nat} {row : BatchTask}
    (member : row ∈ numbered batchId ids n) : row.batchId = batchId := by
  induction ids generalizing n with
  | nil => cases member
  | cons id rest ih =>
    rcases List.mem_cons.mp member with rfl | later
    · rfl
    · exact ih later

theorem BatchStored.ids {call : BatchCall} {entries : List Entry}
    (stored : BatchStored call entries s t) :
    entries.map Entry.id = call.ids := by
  rw [BatchCall.ids, ← stored.tasks, List.map_map]
  rfl

/-- The batch a call has just stored is whole. -/
theorem BatchStored.whole {call : BatchCall} {entries : List Entry}
    (stored : BatchStored call entries s t)
    (numbers : Numbers s.db) : Whole t.db call.response where
  one := by
    have none : s.db.batches.filter (fun batch => batch.id = call.batchId) = [] :=
      List.filter_eq_nil_iff.mpr (fun batch member same =>
        stored.fresh batch member (of_decide_eq_true same))
    refine ⟨call.batch, ?_⟩
    rw [stored.batches, List.filter_append, BatchCall.response, none]
    simp [BatchCall.batch]
  numbers := by
    have none : s.db.batchTasks.filter (fun row => row.batchId = call.batchId) = [] := by
      refine List.filter_eq_nil_iff.mpr (fun row member same => ?_)
      obtain ⟨batch, is, named⟩ := numbers row member
      exact stored.fresh batch is (named.trans (of_decide_eq_true same))
    have mine : (numbered call.batchId call.ids 0).filter (fun row => row.batchId = call.batchId) =
        numbered call.batchId call.ids 0 :=
      List.filter_eq_self.mpr (fun row member => decide_eq_true (numbered_batchId member))
    rw [stored.batchTasks, List.filter_append, BatchCall.response, none, mine, List.nil_append]
  stored := by
    intro id member
    have listed : id ∈ entries.map Entry.id := stored.ids ▸ member
    obtain ⟨entry, is, rfl⟩ := List.mem_map.mp listed
    rw [stored.appended.adds is]
    rfl

/-- A batch stored earlier stays whole. -/
theorem BatchStored.keeps {call : BatchCall} {entries : List Entry} {response : BatchResponse}
    (stored : BatchStored call entries s t) (whole : Whole s.db response) : Whole t.db response := by
  obtain ⟨batch, one⟩ := whole.one
  have listed : batch ∈ s.db.batches.filter (fun batch => batch.id = response.batchId) := by simp [one]
  obtain ⟨member, named⟩ := List.mem_filter.mp listed
  have apart : call.batchId ≠ response.batchId := by
    intro same
    exact stored.fresh batch member ((of_decide_eq_true named).trans same.symm)
  refine ⟨⟨batch, ?_⟩, ?_, fun id is => stored.appended.isSome (whole.stored id is)⟩
  · rw [stored.batches, List.filter_append, one]
    simp [BatchCall.batch, apart]
  · have none : (numbered call.batchId call.ids 0).filter
      (fun row => row.batchId = response.batchId) = [] := by
      refine List.filter_eq_nil_iff.mpr (fun row is same => ?_)
      exact apart ((numbered_batchId is).symm.trans (of_decide_eq_true same))
    rw [stored.batchTasks, List.filter_append, whole.numbers, none, List.append_nil]

theorem BatchStored.numbered {call : BatchCall} {entries : List Entry}
    (stored : BatchStored call entries s t)
    (numbers : Numbers s.db) : Numbers t.db := by
  intro row member
  rw [stored.batchTasks, List.mem_append] at member
  rw [stored.batches]
  rcases member with old | new
  · obtain ⟨batch, is, named⟩ := numbers row old
    exact ⟨batch, List.mem_append_left _ is, named⟩
  · refine ⟨call.batch, by simp, ?_⟩
    rw [numbered_batchId new]
    rfl

theorem booked_empty : Booked .empty where
  numbers := by
    intro row member
    cases member
  whole := by
    intro row member
    cases member

theorem Booked.batch {call : BatchCall} {entries : List Entry} (booked : Booked s)
    (stored : BatchStored call entries s t) : Booked t where
  numbers := stored.numbered booked.numbers
  whole := by
    intro row member
    rw [stored.idempotency, List.mem_append] at member
    rcases member with old | new
    · exact stored.keeps (booked.whole row old)
    · unfold BatchCall.reserves at new
      obtain ⟨key, _, rfl⟩ := Option.map_eq_some_iff.mp (Option.mem_toList.mp new)
      exact stored.whole booked.numbers

theorem Booked.edit (booked : Booked s) {asked : Option (String × String)} (edit : Edit asked s t) :
    Booked t := by
  cases edit with
  | task stored =>
    exact booked.congr stored.batches stored.batchTasks stored.idempotency
      (fun _ => stored.appended.isSome)
  | batch stored => exact booked.batch stored
  | receipt taskId createdAt keyed =>
    unfold putReceipt
    split
    · exact booked
    · exact booked.congr rfl rfl rfl (fun _ found => found)
  | update revised =>
    refine booked.congr revised.batches revised.batchTasks revised.idempotency (fun id found => ?_)
    exact (revised.stored id).trans found

theorem Booked.edits (booked : Booked s) {asked : Option (String × String)}
    (edits : Edits asked s t) : Booked t := by
  induction edits with
  | refl => exact booked
  | tail _ edit ih => exact ih.edit edit

theorem Booked.step {act : StoreAct} (booked : Booked s)
    (step : Guarded Step (fun _ act => act.deletes = false) s act t) : Booked t := by
  obtain ⟨rfl, keeps⟩ := step
  rcases apply_cases s act with ⟨faults, clock, rfl⟩ | deletes | edits
  · rcases migrateLegacySeeds_cases clock faults s with same | ⟨allocations, ids, migrated⟩
    · have rest : s.apply (.restart faults clock) = s := same
      rw [rest]
      exact booked
    · refine booked.congr migrated.batches migrated.batchTasks migrated.idempotency (fun id found => ?_)
      exact (migrated.stored id).trans found
  · rw [keeps] at deletes
    cases deletes
  · exact booked.edits edits

/-- Retention takes a batch only with its last task. -/
theorem Numbers.withoutTasks {db : Db} (numbers : Numbers db) (ids : List TaskId) :
    Numbers (db.withoutTasks ids) := by
  intro row member
  obtain ⟨batch, stored, named⟩ := numbers row (List.mem_of_mem_filter member)
  refine ⟨batch, List.mem_filter.mpr ⟨stored, List.any_eq_true.mpr ⟨row, member, ?_⟩⟩, named⟩
  exact decide_eq_true named.symm

theorem Numbers.edit (numbers : Numbers s.db) {asked : Option (String × String)}
    (edit : Edit asked s t) :
    Numbers t.db := by
  cases edit with
  | task stored => exact numbers.congr stored.batches stored.batchTasks
  | batch stored => exact stored.numbered numbers
  | receipt taskId createdAt keyed =>
    unfold putReceipt
    split <;> exact numbers
  | update revised => exact numbers.congr revised.batches revised.batchTasks

theorem Numbers.step {act : StoreAct} (numbers : Numbers s.db) (step : Step s act t) :
    Numbers t.db := by
  obtain rfl := step
  rcases apply_cases s act with ⟨faults, clock, rfl⟩ | deletes | edits
  · rcases migrateLegacySeeds_cases clock faults s with same | ⟨allocations, ids, migrated⟩
    · have rest : s.apply (.restart faults clock) = s := same
      rw [rest]
      exact numbers
    · exact numbers.congr migrated.batches migrated.batchTasks
  · cases act with
    | purgeRetention tasksBefore eventsBefore idempotencyBefore =>
      show Numbers (s.purged tasksBefore eventsBefore idempotencyBefore).db
      rcases purged_cases s tasksBefore eventsBefore idempotencyBefore with same | same
      · rw [same]
        exact numbers
      · rw [same]
        have kept : Numbers (if (s.db.terminalTaskIdsBefore tasksBefore).isEmpty then s.db
            else s.db.withoutTasks (s.db.terminalTaskIdsBefore tasksBefore)) := by
          split
          · exact numbers
          · exact numbers.withoutTasks _
        exact kept.congr rfl rfl
    | purgeTerminalTask id =>
      show Numbers (((s.db.purgeTerminalTask id).map Prod.fst).getD s.db)
      rw [Db.purgeTerminalTask_eq]
      cases s.db.getTask id with
      | none => exact numbers
      | some row =>
        dsimp only [Option.map_some, Option.getD_some]
        split
        · exact numbers.withoutTasks _
        · exact numbers
    | _ => cases deletes
  · generalize s.apply act = t at edits
    induction edits with
    | refl => exact numbers
    | tail _ edit ih => exact ih.edit edit

/-- Calls of `create_batch` one after another, with the replies they got. -/
def createBatches : List (Option Nat × BatchCall) → Store →
    Store × List (Option (String × List TaskRecord))
  | [], s => (s, [])
  | (faults, call) :: rest, s =>
    let outcome := createBatch call faults s
    let (t, replies) := createBatches rest outcome.state
    (t, outcome.value :: replies)

/-- A call under a key that has a reservation changes nothing, and returns what was reserved unless
it raises. -/
theorem createBatch_reserved {call : BatchCall} {row : IdempotencyRecord}
    (found : call.reserved s.db = some row) (faults : Option Nat) :
    (createBatch call faults s).state = s ∧ ∀ batchId records,
      (createBatch call faults s).value = some (batchId, records) →
      batchId = row.response.batchId ∧ row.response.taskIds.mapM s.db.getTask = some records := by
  rcases Work.returns_or_raises (createBatch call) faults s with
    ⟨⟨named, records⟩, value, returns⟩ | ⟨value, raises⟩
  · rcases returns_createBatch returns with
      ⟨other, same, rest, answer, listed⟩ | ⟨missing, _⟩
    · rw [found] at same
      cases same
      refine ⟨rest, fun batchId records answered => ?_⟩
      rw [value] at answered
      cases answered
      exact ⟨answer, listed⟩
    · rw [found] at missing
      cases missing
  · rcases raises_createBatch raises with rest | ⟨missing, _⟩
    · refine ⟨rest, fun batchId records answered => ?_⟩
      rw [value] at answered
      cases answered
    · rw [found] at missing
      cases missing

/-- A call under a new key stores its whole batch or nothing. It may raise after it has stored the
batch, while it reads the tasks back. -/
theorem createBatch_new {call : BatchCall} (missing : call.reserved s.db = none) (faults : Option Nat) :
    ((createBatch call faults s).state = s ∧ (createBatch call faults s).value = none) ∨
    (∃ entries, BatchStored call entries s (createBatch call faults s).state) ∧ ∀ batchId records,
      (createBatch call faults s).value = some (batchId, records) → batchId = call.batchId ∧
      call.ids.mapM (createBatch call faults s).state.db.getTask = some records := by
  rcases Work.returns_or_raises (createBatch call) faults s with
    ⟨⟨named, records⟩, value, returns⟩ | ⟨value, raises⟩
  · rcases returns_createBatch returns with
      ⟨row, found, _⟩ | ⟨_, stored, answer, listed⟩
    · rw [missing] at found
      cases found
    · refine .inr ⟨stored, fun batchId records answered => ?_⟩
      rw [value] at answered
      cases answered
      exact ⟨answer, listed⟩
  · rcases raises_createBatch raises with rest | ⟨_, stored⟩
    · exact .inl ⟨rest, value⟩
    · refine .inr ⟨stored, fun batchId records answered => ?_⟩
      rw [value] at answered
      cases answered

/-- The batch id and the task ids of the response, in order. -/
def Answers (response : BatchResponse) (reply : Option (String × List TaskRecord)) : Prop :=
  ∀ batchId records, reply = some (batchId, records) →
    batchId = response.batchId ∧ records.map TaskRecord.id = response.taskIds

theorem mapM_getTask_ids {db : Db} {ids : List TaskId} {records : List TaskRecord}
    (listed : ids.mapM db.getTask = some records) : records.map TaskRecord.id = ids := by
  induction ids generalizing records with
  | nil =>
    cases listed
    rfl
  | cons id rest ih =>
    simp only [List.mapM_cons, Option.pure_def, Option.bind_eq_bind, Option.bind_eq_some_iff,
      Option.some.injEq] at listed
    obtain ⟨record, found, others, more, rfl⟩ := listed
    rw [List.map_cons, ih more, (Tasks.get?_mem found).2]

theorem BatchStored.reservation {call : BatchCall} {entries : List Entry} {actor route key : String}
    (stored : BatchStored call entries s t) (keyed : call.reservation = some (actor, route, key))
    (missing : s.db.reservation actor route key = none) :
    t.db.reservation actor route key = some ⟨actor, route, key, call.response, call.createdAt⟩ := by
  unfold Db.reservation at missing ⊢
  rw [stored.idempotency, List.find?_append, missing]
  simp [BatchCall.reserves, keyed]

variable {actor route key : String} {attempts : List (Option Nat × BatchCall)}

theorem createBatches_reserved {row : IdempotencyRecord}
    (found : s.db.reservation actor route key = some row)
    (keyed : ∀ attempt ∈ attempts, attempt.2.reservation = some (actor, route, key)) :
    (createBatches attempts s).1 = s ∧ ∀ reply ∈ (createBatches attempts s).2,
      Answers row.response reply := by
  induction attempts with
  | nil => exact ⟨rfl, by simp [createBatches]⟩
  | cons attempt rest ih =>
    obtain ⟨faults, call⟩ := attempt
    have mine := keyed (faults, call) List.mem_cons_self
    have reserved : call.reserved s.db = some row := by
      unfold BatchCall.reserved
      rw [mine]
      exact found
    obtain ⟨still, answered⟩ := createBatch_reserved reserved faults
    obtain ⟨same, others⟩ := ih (fun attempt member => keyed attempt (List.mem_cons_of_mem _ member))
    simp only [createBatches, still]
    refine ⟨same, fun reply member => ?_⟩
    rcases List.mem_cons.mp member with rfl | later
    · intro batchId records value
      obtain ⟨named, listed⟩ := answered batchId records value
      exact ⟨named, mapM_getTask_ids listed⟩
    · exact others reply later

theorem createBatches_new (missing : s.db.reservation actor route key = none)
    (keyed : ∀ attempt ∈ attempts, attempt.2.reservation = some (actor, route, key)) :
    ((createBatches attempts s).1 = s ∧ ∀ reply ∈ (createBatches attempts s).2, reply = none) ∨
    ∃ attempt ∈ attempts, ∃ entries, BatchStored attempt.2 entries s (createBatches attempts s).1 ∧
      ∀ reply ∈ (createBatches attempts s).2, Answers attempt.2.response reply := by
  induction attempts with
  | nil => exact .inl ⟨rfl, by simp [createBatches]⟩
  | cons attempt rest ih =>
    obtain ⟨faults, call⟩ := attempt
    have mine := keyed (faults, call) List.mem_cons_self
    have unreserved : call.reserved s.db = none := by
      unfold BatchCall.reserved
      rw [mine]
      exact missing
    have others := fun attempt member => keyed attempt (List.mem_cons_of_mem (faults, call) member)
    simp only [createBatches]
    rcases createBatch_new unreserved faults with ⟨still, raised⟩ | ⟨⟨entries, stored⟩, answered⟩
    · rw [still, raised]
      rcases ih others with ⟨same, silent⟩ | ⟨attempt, member, entries, stored, answers⟩
      · refine .inl ⟨same, fun reply member => ?_⟩
        rcases List.mem_cons.mp member with rfl | later
        · rfl
        · exact silent reply later
      · refine .inr ⟨attempt, List.mem_cons_of_mem _ member, entries, stored, fun reply is => ?_⟩
        rcases List.mem_cons.mp is with rfl | later
        · intro batchId records value
          cases value
        · exact answers reply later
    · obtain ⟨same, answers⟩ := createBatches_reserved (stored.reservation mine missing) others
      refine .inr ⟨(faults, call), List.mem_cons_self, entries, ?_, fun reply is => ?_⟩
      · rw [same]
        exact stored
      · rcases List.mem_cons.mp is with rfl | later
        · intro batchId records value
          obtain ⟨named, listed⟩ := answered batchId records value
          exact ⟨named, mapM_getTask_ids listed⟩
        · exact answers reply later

end Store

section Runs
open Store
variable {acts : List StoreAct} {s t : Store} {actor route key : String}
variable {attempts : List (Option Nat × BatchCall)} {replies : List (Option (String × List TaskRecord))}

/-- From any file, calls under one key that may fail at any statement store nothing or exactly one
batch; every call that returns answers with it; and a call that raises has left everything as it was
unless its batch was already committed. The batch is whole where the calls made it, and where
retention has not touched the file. -/
theorem batch_once (run : Run Store.Step .empty acts s)
    (keyed : ∀ attempt ∈ attempts, attempt.2.reservation = some (actor, route, key))
    (made : createBatches attempts s = (t, replies)) :
    (t.db.reservation actor route key = none → t = s ∧ ∀ reply ∈ replies, reply = none) ∧
    (∀ row, t.db.reservation actor route key = some row →
      (s.db.reservation actor route key = none ∨ (∀ act ∈ acts, act.deletes = false) →
        Whole t.db row.response) ∧
      (∀ reply ∈ replies, Answers row.response reply) ∧
      (t = s ∨ s.db.reservation actor route key = none ∧
        ∃ attempt ∈ attempts, ∃ entries, row.response = attempt.2.response ∧
          BatchStored attempt.2 entries s t)) ∧
    ∀ faults call before, (createBatch call faults before).value = none →
      (createBatch call faults before).state = before ∨
      ∃ entries, BatchStored call entries before (createBatch call faults before).state := by
  have numbers : Numbers s.db :=
    run.invariant (P := fun s => Numbers s.db) (fun numbers step => numbers.step step)
    (fun row member => nomatch member)
  have final : (createBatches attempts s).1 = t := by rw [made]
  have said : (createBatches attempts s).2 = replies := by rw [made]
  refine ⟨fun absent => ?_, fun row found => ?_, fun faults call before raised => ?_⟩
  · cases reserved : s.db.reservation actor route key with
    | some row =>
      obtain ⟨same, _⟩ := createBatches_reserved reserved keyed
      rw [← final, same, reserved] at absent
      cases absent
    | none =>
      rcases createBatches_new reserved keyed with ⟨same, silent⟩ | ⟨attempt, member, entries,
        stored, _⟩
      · rw [final] at same
        rw [said] at silent
        exact ⟨same, silent⟩
      · rw [final] at stored
        rw [stored.reservation (keyed attempt member) reserved] at absent
        cases absent
  · cases reserved : s.db.reservation actor route key with
    | some other =>
      obtain ⟨same, answers⟩ := createBatches_reserved reserved keyed
      rw [final] at same
      rw [said] at answers
      subst same
      rw [reserved] at found
      cases found
      refine ⟨fun spared => ?_, answers, .inl rfl⟩
      have kept := spared.resolve_left nofun
      have booked : Booked t := (run.guarded (fun act member _ => kept act member)).invariant
        (fun booked step => booked.step step) booked_empty
      exact booked.whole row (List.mem_of_find?_eq_some reserved)
    | none =>
      rcases createBatches_new reserved keyed with ⟨same, _⟩ | ⟨attempt, member, entries,
        stored, answers⟩
      · rw [final] at same
        subst same
        rw [reserved] at found
        cases found
      · rw [final] at stored
        rw [said] at answers
        rw [stored.reservation (keyed attempt member) reserved] at found
        cases found
        exact ⟨fun _ => stored.whole numbers, answers,
          .inr ⟨rfl, attempt, member, entries, rfl, stored⟩⟩
  · rcases Work.returns_or_raises (createBatch call) faults before with ⟨_, value, _⟩ | ⟨_, raises⟩
    · rw [raised] at value
      cases value
    · rcases raises_createBatch raises with same | ⟨_, stored⟩
      · exact .inl same
      · exact .inr stored

/-- One task under a key. -/
def oneTaskCall (taskId : TaskId) : BatchCall where
  now := "2026"
  createdAt := "2026"
  batchId := "b"
  template := "demo"
  values := []
  tasks := [(taskId, (TaskCreate.keyed []).draft)]
  reservation := some ("agent", "/api/v1/runs", "same-key")
  clock := fun _ _ => 5

def twoCalls : List (Option Nat × BatchCall) := [(none, oneTaskCall "a"), (none, oneTaskCall "c")]

theorem batch_once_twice :
    ∃ row, (createBatches twoCalls Store.empty).1.db.reservation "agent" "/api/v1/runs"
      "same-key" = some row ∧ Whole (createBatches twoCalls Store.empty).1.db row.response ∧
    ∀ reply ∈ (createBatches twoCalls Store.empty).2, Answers row.response reply := by
  have reserved : ((createBatches twoCalls Store.empty).1.db.reservation "agent" "/api/v1/runs"
      "same-key").isSome = true := by decide +kernel
  obtain ⟨row, found⟩ := Option.isSome_iff_exists.mp reserved
  have keyed : ∀ attempt ∈ twoCalls,
    attempt.2.reservation = some ("agent", "/api/v1/runs", "same-key") := by
    simp [twoCalls, oneTaskCall]
  obtain ⟨whole, answers, _⟩ := (batch_once (.nil Store.empty) keyed rfl).2.1 row found
  exact ⟨row, found, whole (.inl rfl), answers⟩

/-- The read after `COMMIT` fails: the call raises and its batch is stored. -/
theorem raised_after_commit : (createBatch (oneTaskCall "a") (some 9) .empty).value = none ∧
    (createBatch (oneTaskCall "a") (some 9) .empty).state.db.batches ≠ Store.empty.db.batches := by
  have stored : ((createBatch (oneTaskCall "a") (some 9) .empty).value.isNone &&
      !(createBatch (oneTaskCall "a") (some 9) .empty).state.db.batches.isEmpty) =
        true := by decide +kernel
  obtain ⟨raised, kept⟩ := Bool.and_eq_true _ _ |>.mp stored
  refine ⟨Option.isNone_iff_eq_none.mp raised, fun same => ?_⟩
  rw [same] at kept
  cases kept

end Runs
end LocalFlow
