import LocalFlow.Storage.History

/-! The routes that submit task by task: one task under one key, and the runs of a template. Between
the calls of a handler nothing else runs, but the controller may crash. -/
namespace LocalFlow
open Faults Transition

/-- The request a committed task was submitted by. -/
def StoreCommit.request : StoreCommit → Option (String × String)
  | .task _ _ _ request => request
  | .migration _ _ => none

namespace Store

/-- The tasks committed under one key. -/
def filed (store : Store) (request : String × String) : List StoreCommit :=
  store.commits.filter (fun commit => commit.request = some request)

/-- The calls a submission makes up to its `COMMIT`: the lookup of the key, `BEGIN`, two for each
deferred value, the row, its event and `COMMIT`. -/
def callsToCommit (call : TaskCall) : Nat :=
  5 + 2 * (call.prepared.elim 0 (fun draft => draft.deferredValues.length))

/-- The request does not fail after its task is committed and before its receipt is recorded. -/
def Recorded (faults : Option Nat) (call : TaskCall) : Prop :=
  faults ≠ some (callsToCommit call) ∧ faults ≠ some (callsToCommit call + 1)

/-- No receipt is purged, and no request fails between its task and its receipt. -/
def Unbroken (store : Store) : StoreAct → Prop
  | .post faults _ _ call => Recorded faults call
  | .purgeRetention _ _ idempotencyBefore =>
    ∀ row ∈ store.receipts, ¬ row.createdAt < idempotencyBefore
  | _ => True

/-- A key under which a task was committed has its receipt, and only one task. -/
structure Receipted (store : Store) : Prop where
  recorded : ∀ request, store.filed request ≠ [] → (store.receipt request).isSome
  once : ∀ request, (store.filed request).length ≤ 1

variable {s t : Store}

section Costs

theorem costs_allocateAll (clock : Nat → Int) (entries : List (String × DeferredValue)) (n : Nat) :
    (allocateAll clock entries n).Costs (2 * entries.length) := by
  induction entries generalizing n with
  | nil => exact Work.costs_pure
  | cons entry rest ih =>
    have one : (allocateDeferred (clock n) entry.2).Costs (1 + (1 + 0)) :=
      Work.costs_bind (Work.costs_call _) (fun _ =>
        Work.costs_bind (Work.costs_call _) (fun _ => Work.costs_pure))
    have all : (allocateAll clock (entry :: rest) n).Costs (1 + (1 + 0) + (2 * rest.length + 0)) :=
      Work.costs_bind one (fun _ => Work.costs_bind (ih (n + 1)) (fun _ => Work.costs_pure))
    have total : 1 + (1 + 0) + (2 * rest.length + 0) = 2 * (entry :: rest).length := by
      simp only [List.length_cons]
      omega
    exact total ▸ all

theorem costs_materializeDraft (clock : Nat → Int) (draft : TaskDraft) :
    (materializeDraft clock draft).Costs (2 * draft.deferredValues.length) := by
  unfold materializeDraft
  split
  · rename_i none
    rw [List.isEmpty_iff.mp none]
    exact Work.costs_bind (Work.costs_given _) (fun _ => Work.costs_pure)
  · exact Work.costs_bind (costs_allocateAll clock _ 0) (fun _ =>
      Work.costs_bind (Work.costs_given _) (fun _ => Work.costs_pure))

theorem costs_onDb (f : Db → Option Db) : (onDb f).Costs 1 := by
  unfold onDb Work.write
  exact Work.costs_call _

theorem costs_taskTransaction (now : String) (clock : Nat → Int) (id : TaskId) (draft : TaskDraft)
    (request : Option (String × String)) :
    (Work.transaction (taskTransaction now clock id draft request)).Costs
      (2 * draft.deferredValues.length + 4) := by
  have insert : (insertTask now clock id draft request).Costs
      (2 * draft.deferredValues.length + (0 + 1)) :=
    Work.costs_bind (costs_materializeDraft clock draft) (fun _ =>
      Work.costs_bind (Work.costs_given _) (fun _ => Work.costs_call _))
  have body : (taskTransaction now clock id draft request).Costs
      (2 * draft.deferredValues.length + (0 + 1) + 1) :=
    Work.costs_bind insert (fun _ => costs_onDb _)
  exact Work.costs_transaction body

end Costs

/-- A submission that raises after its `COMMIT` ran out of calls right there. -/
theorem submit_broken {call : TaskCall} {request : Option (String × String)} {faults rest : Option Nat}
    (h : submit call request faults s = ⟨none, t, rest⟩) (stored : t ≠ s) :
    faults = some (callsToCommit call - 1) := by
  rcases Work.raises_bind_at h with unprepared | ⟨draft, u, later, prepared, creates⟩
  · exact absurd (Work.raises_given ⟨_, _, unprepared⟩) stored
  · obtain ⟨drafted, rfl⟩ := Work.returns_given ⟨_, _, prepared⟩
    have same : later = faults := by
      rcases Work.costs_given _ _ _ _ _ _ prepared with ⟨rfl, rfl⟩ | ⟨k, rfl, rfl⟩ <;> rfl
    subst same
    rcases Work.raises_bind_at creates with rolled | ⟨_, v, after, commits, reads⟩
    · exact absurd (Work.raises_transaction ⟨_, _, rolled⟩) stored
    · obtain ⟨entry, named, _, filed⟩ :=
        returns_taskTransaction (Work.returns_transaction ⟨_, _, commits⟩)
      have found := filed.appended.adds (List.mem_singleton_self entry)
      rw [named] at found
      have last := Work.raises_call_at reads (by simp [found])
      subst last
      rcases costs_taskTransaction _ _ _ _ _ _ _ _ _ _ commits with ⟨_, impossible⟩ | ⟨k, rfl, zero⟩
      · cases impossible
      · cases zero
        simp only [callsToCommit, drafted, Option.elim_some, Option.some.injEq]
        omega

theorem costs_submit {call : TaskCall} {request : Option (String × String)} {faults rest : Option Nat}
    {record : TaskRecord} (h : submit call request faults s = ⟨some record, t, rest⟩) :
    faults = none ∧ rest = none ∨ ∃ k, faults = some (k + callsToCommit call) ∧ rest = some k := by
  obtain ⟨draft, u, later, prepared, creates⟩ := Work.returns_bind_at h
  obtain ⟨drafted, rfl⟩ := Work.returns_given ⟨_, _, prepared⟩
  have same : later = faults := by
    rcases Work.costs_given _ _ _ _ _ _ prepared with ⟨rfl, rfl⟩ | ⟨k, rfl, rfl⟩ <;> rfl
  subst same
  have create : (createTask call.now call.clock call.id draft request).Costs
      (2 * draft.deferredValues.length + 4 + 1) :=
    Work.costs_bind (costs_taskTransaction _ _ _ _ _) (fun _ => Work.costs_call _)
  have total : 2 * draft.deferredValues.length + 4 + 1 = callsToCommit call := by
    simp only [callsToCommit, drafted, Option.elim_some]
    omega
  exact total ▸ create _ _ _ _ _ creates

/-- A keyed request that raises has stored nothing, or failed between its task and its receipt. -/
theorem postKeyed_broken {request : String × String} {call : TaskCall} {faults rest : Option Nat}
    (h : postKeyed request call faults s = ⟨none, t, rest⟩) (recorded : Recorded faults call) :
    t = s := by
  by_contra stored
  rcases Work.raises_bind_at h with looks | ⟨previous, u, later, looks, more⟩
  · exact stored (Work.raises_read ⟨_, _, looks⟩)
  · obtain ⟨_, rfl⟩ := Work.returns_read ⟨_, _, looks⟩
    have looked := Work.costs_call _ _ _ _ _ _ looks
    cases previous with
    | some row => cases more
    | none =>
      rcases Work.raises_bind_at more with submits | ⟨record, v, after, submits, puts⟩
      · have ran := submit_broken submits stored
        subst ran
        rcases looked with ⟨_, impossible⟩ | ⟨k, rfl, same⟩
        · cases impossible
        · cases same
          apply recorded.1
          have some_call : 5 ≤ callsToCommit call := Nat.le_add_right _ _
          rw [Nat.sub_add_cancel (by omega)]
      · rcases Work.raises_bind_at puts with writes | ⟨_, w, _, _, impossible⟩
        · have last := Work.raises_call_at writes rfl
          subst last
          rcases costs_submit submits with ⟨_, impossible⟩ | ⟨k, rfl, zero⟩
          · cases impossible
          · cases zero
            rcases looked with ⟨_, impossible⟩ | ⟨k, rfl, same⟩
            · cases impossible
            · cases same
              exact recorded.2 (by simp)
        · cases impossible

theorem Receipted.congr (receipted : Receipted s) (filed : ∀ request, t.filed request = s.filed request)
    (receipts : t.receipts = s.receipts) : Receipted t where
  recorded := by
    intro request some
    rw [filed request] at some
    have found := receipted.recorded request some
    unfold receipt at found ⊢
    rwa [receipts]
  once := by
    intro request
    rw [filed request]
    exact receipted.once request

theorem filed_append (more : List StoreCommit) (commits : t.commits = s.commits ++ more)
    (request : String × String) : t.filed request = s.filed request ++
      more.filter (fun commit => commit.request = some request) := by
  simp [filed, commits]

/-- A step without a keyed request leaves keys and receipts alone. -/
theorem Receipted.edit (receipted : Receipted s) (edit : Edit none s t) : Receipted t := by
  cases edit with
  | task stored =>
    refine receipted.congr (fun request => ?_) stored.appended.receipts
    rw [filed_append _ stored.appended.commits]
    simp [Entry.commit, StoreCommit.request]
  | batch stored =>
    refine receipted.congr (fun request => ?_) stored.appended.receipts
    rw [filed_append _ stored.appended.commits]
    simp [Entry.commit, StoreCommit.request]
  | receipt taskId createdAt keyed => cases keyed
  | update revised => exact receipted.congr (fun _ => rfl) rfl

theorem Receipted.edits (receipted : Receipted s) (edits : Edits none s t) : Receipted t := by
  induction edits with
  | refl => exact receipted
  | tail _ edit ih => exact ih.edit edit

theorem receipt_putReceipt (request : String × String) (taskId : TaskId) (createdAt : String) :
    ((s.putReceipt request taskId createdAt).receipt request).isSome := by
  unfold putReceipt
  split
  · assumption
  · unfold receipt
    rw [List.find?_append]
    cases List.find? _ s.receipts with
    | none => simp
    | some row => rfl

theorem putReceipt_keeps {request other : String × String} {taskId : TaskId} {createdAt : String}
    (found : (s.receipt other).isSome) :
    ((s.putReceipt request taskId createdAt).receipt other).isSome := by
  unfold putReceipt
  split
  · exact found
  · obtain ⟨row, same⟩ := Option.isSome_iff_exists.mp found
    unfold receipt at same ⊢
    rw [List.find?_append, same]
    rfl

/-- A keyed request finds its receipt, or commits the first task of its key and records it. -/
theorem Receipted.posted {request : String × String} {call : TaskCall} {entry : Entry} {u : Store}
    (receipted : Receipted s) (missing : s.receipt request = none)
    (stored : TaskStored call.now (some request) entry s u) :
    Receipted (u.putReceipt request call.id call.receivedAt) := by
  have none_filed : s.filed request = [] := by
    by_contra some
    have found := receipted.recorded request some
    rw [missing] at found
    cases found
  have filed_u : ∀ other,
    (u.putReceipt request call.id call.receivedAt).filed other = u.filed other := by
    intro other
    unfold putReceipt
    split <;> rfl
  have receipts : ∀ other, u.receipt other = s.receipt other := by
    intro other
    unfold receipt
    rw [stored.appended.receipts]
  have added : ∀ other, u.filed other = s.filed other ++ if request = other then
    [entry.commit (some request)] else [] := by
    intro other
    rw [filed_append _ stored.appended.commits]
    by_cases same : request = other
    · simp [Entry.commit, StoreCommit.request, same]
    · simp [Entry.commit, StoreCommit.request, same]
  constructor
  · intro other some
    by_cases same : request = other
    · subst same
      exact receipt_putReceipt request call.id call.receivedAt
    · rw [filed_u, added, if_neg same, List.append_nil] at some
      apply putReceipt_keeps
      rw [receipts]
      exact receipted.recorded other some
  · intro other
    rw [filed_u, added]
    by_cases same : request = other
    · subst same
      simp [none_filed]
    · rw [if_neg same, List.append_nil]
      exact receipted.once other

theorem Receipted.postKeyed {request : String × String} {call : TaskCall} {faults : Option Nat}
    (receipted : Receipted s) (recorded : Recorded faults call) :
    Receipted (postKeyed request call faults s).state := by
  rcases outcome : Store.postKeyed request call faults s with ⟨value, state, rest⟩
  cases value with
  | some taskId =>
    rcases postKeyed_returns ⟨_, _, outcome⟩ with ⟨row, _, _, rfl⟩ | ⟨missing, entry, u, _, stored, rfl⟩
    · exact receipted
    · exact receipted.posted missing stored
  | none =>
    rw [postKeyed_broken outcome recorded]
    exact receipted

theorem Receipted.step {act : StoreAct} (receipted : Receipted s)
    (step : Guarded Step Unbroken s act t) : Receipted t := by
  obtain ⟨rfl, unbroken⟩ := step
  rcases apply_cases s act with ⟨faults, clock, rfl⟩ | deletes | edits
  · rcases migrateLegacySeeds_cases clock faults s with same | ⟨allocations, ids, migrated⟩
    · have rest : s.apply (.restart faults clock) = s := same
      rw [rest]
      exact receipted
    · refine receipted.congr (fun request => ?_) migrated.receipts
      rw [show s.apply (.restart faults clock) = (migrateLegacySeeds clock faults s).state from rfl,
        filed_append _ migrated.commits, List.filter_eq_nil_iff.mpr, List.append_nil]
      intro commit member
      obtain ⟨entry, _, rfl⟩ := List.mem_map.mp member
      simp [StoreCommit.request]
  · have commits := (deleted_apply (s := s) deletes).commits
    refine receipted.congr (fun request => by rw [filed, commits, filed]) ?_
    cases act with
    | purgeRetention tasksBefore eventsBefore idempotencyBefore =>
      obtain same | same := s.purged_cases tasksBefore eventsBefore idempotencyBefore
      · rw [apply, same]
      rw [apply, same]
      exact List.filter_eq_self.mpr (fun row member => by simpa using unbroken row member)
    | purgeTerminalTask id => rfl
    | _ => cases deletes
  · cases keyed : act.request with
    | none =>
      rw [keyed] at edits
      exact receipted.edits edits
    | some request =>
      cases act with
      | post faults actor key call =>
        simp only [apply, postTask]
        simp only [StoreAct.request] at keyed
        rw [keyed]
        exact receipted.postKeyed unbroken
      | _ => cases keyed

theorem receipted_empty : Receipted .empty where
  recorded := by
    intro request some
    exact absurd rfl some
  once := by
    intro request
    exact Nat.zero_le _

/-- Every draft is submitted, each to the store its predecessors leave. -/
def submitsAll : List TaskCall → Option Nat → Store → Bool
  | [], _, _ => true
  | call :: rest, faults, s =>
    match submit call none faults s with
    | ⟨some _, t, later⟩ => submitsAll rest later t
    | ⟨none, _, _⟩ => false

/-- The first draft is refused and leaves nothing. -/
def refusesFirst : List TaskCall → Option Nat → Store → Prop
  | [], _, _ => False
  | call :: _, faults, s => (submit call none faults s).state = s

/-- A run of a template commits all of its tasks and answers their ids, or commits none. -/
def AllOrNothing (calls : List TaskCall) (s : Store) (outcome : Outcome Store (List TaskId)) : Prop :=
  (outcome.value = some (calls.map TaskCall.id) ∧ ∃ entries : List Entry,
    entries.map Entry.id = calls.map TaskCall.id ∧
    outcome.state.commits = s.commits ++ entries.map (Entry.commit none)) ∨
  outcome.value = none ∧ outcome.state = s

theorem submitted_all {calls : List TaskCall} {faults : Option Nat}
    (all : submitsAll calls faults s = true) :
    ∃ records t rest, Work.each (fun call => submit call none) calls faults s =
      ⟨some records, t, rest⟩ ∧
      records.map TaskRecord.id = calls.map TaskCall.id ∧ ∃ entries : List Entry,
        entries.map Entry.id = calls.map TaskCall.id ∧
        t.commits = s.commits ++ entries.map (Entry.commit none) := by
  induction calls generalizing faults s with
  | nil => exact ⟨[], s, faults, rfl, rfl, [], rfl, by simp⟩
  | cons call rest ih =>
    unfold submitsAll at all
    split at all
    · rename_i record u later first
      obtain ⟨records, t, last, more, named, entries, ids, commits⟩ := ih all
      obtain ⟨⟨entry, mine, stored⟩, found⟩ := returns_submit ⟨_, _, first⟩
      refine ⟨record :: records, t, last, ?_, ?_, entry :: entries, ?_, ?_⟩
      · rw [Work.each_cons]
        change Work.andThen _ _ faults s = _
        unfold Work.andThen
        rw [first]
        change Work.andThen _ _ later u = _
        unfold Work.andThen
        rw [more]
        rfl
      · rw [List.map_cons, List.map_cons, named, getTask_id found]
      · rw [List.map_cons, List.map_cons, ids, mine]
      · rw [commits, stored.appended.commits]
        simp
    · cases all

theorem submitted_some {calls : List TaskCall} {faults rest : Option Nat} {records : List TaskRecord}
    (h : Work.each (fun call => submit call none) calls faults s = ⟨some records, t, rest⟩) :
    submitsAll calls faults s = true := by
  induction calls generalizing faults s records t rest with
  | nil => rfl
  | cons call others ih =>
    rw [Work.each_cons] at h
    obtain ⟨record, u, later, first, more⟩ := Work.returns_bind_at h
    obtain ⟨_, v, last, tail, _⟩ := Work.returns_bind_at more
    unfold submitsAll
    rw [first]
    exact ih tail

/-- Commits are never taken back. -/
theorem Edits.commits {asked : Option (String × String)} (edits : Edits asked s t) :
    s.commits <+: t.commits := by
  induction edits with
  | refl => exact List.prefix_rfl
  | tail _ edit ih =>
    refine ih.trans ?_
    cases edit with
    | task stored => exact ⟨_, stored.appended.commits.symm⟩
    | batch stored => exact ⟨_, stored.appended.commits.symm⟩
    | receipt taskId createdAt keyed =>
      unfold putReceipt
      split <;> exact List.prefix_rfl
    | update revised => exact List.prefix_rfl

theorem runTemplate_eq (calls : List TaskCall) (faults : Option Nat) (s : Store) :
    runTemplate (some calls) faults s =
      match Work.each (fun call => submit call none) calls faults s with
      | ⟨some records, t, rest⟩ => ⟨some (records.map TaskRecord.id), t, rest⟩
      | ⟨none, t, rest⟩ => ⟨none, t, rest⟩ := by
  change Work.andThen (Work.each (fun call => submit call none) calls) _ faults s = _
  unfold Work.andThen
  rcases Work.each (fun call => submit call none) calls faults s with ⟨value, t, rest⟩
  cases value <;> rfl

theorem submit_grows {call : TaskCall} {request : Option (String × String)} {record : TaskRecord}
    (h : (submit call request).Returns s record t) : s.commits.length < t.commits.length := by
  obtain ⟨⟨entry, _, stored⟩, _⟩ := returns_submit h
  rw [stored.appended.commits]
  simp

/-- A refused first draft raises, and nothing after it runs. -/
theorem each_refused {call : TaskCall} (rest : List TaskCall) {faults : Option Nat}
    (refused : (submit call none faults s).state = s) :
    ∃ left, Work.each (fun call => submit call none) (call :: rest) faults s = ⟨none, s, left⟩ := by
  rcases outcome : submit call none faults s with ⟨value, u, left⟩
  rw [outcome] at refused
  subst refused
  cases value with
  | some record => exact absurd (submit_grows ⟨_, _, outcome⟩) (Nat.lt_irrefl _)
  | none =>
    refine ⟨left, ?_⟩
    rw [Work.each_cons]
    change Work.andThen _ _ faults u = _
    unfold Work.andThen
    rw [outcome]

/-- Tasks are left behind exactly when a later draft fails. -/
theorem each_refuses {calls : List TaskCall} {faults rest : Option Nat}
    (h : Work.each (fun call => submit call none) calls faults s = ⟨none, s, rest⟩) :
    refusesFirst calls faults s := by
  cases calls with
  | nil => cases h
  | cons call others =>
    rw [Work.each_cons] at h
    change (submit call none faults s).state = s
    rcases Work.raises_bind_at h with first | ⟨record, u, later, first, more⟩
    · rw [first]
    · have grown := submit_grows ⟨_, _, first⟩
      have kept : u.commits <+: s.commits := by
        rcases Work.raises_bind_at more with tail | ⟨records, v, last, _, impossible⟩
        · exact (raises_each_submit ⟨_, _, tail⟩).commits
        · cases impossible
      exact absurd kept.length_le (by omega)

end Store

section Runs
open Store
variable {acts : List StoreAct} {s : Store}

/-- While no receipt is purged and no request fails or crashes between the commit of its task and
the recording of its receipt, a key has at most one task. -/
theorem one_task_per_key (run : Run (Guarded Store.Step Unbroken) .empty acts s)
    (request : String × String) :
    (s.filed request).length ≤ 1 := by
  have receipted : Receipted s :=
    run.invariant (fun receipted step => receipted.step step) receipted_empty
  exact receipted.once request

/-- `POST /api/v1/tasks` with a key. -/
def keyedPost (faults : Option Nat) (id : TaskId) : StoreAct :=
  .post faults "agent" (some "same-key") ⟨some (TaskCreate.keyed []).draft, "2026", fun _ =>
    5, id, "2026"⟩

/-- A request that fails at its `COMMIT`, a restart and two retries. -/
def retriedPosts : List StoreAct :=
  [keyedPost (some 4) "a", .restart none (fun _ => 5), keyedPost none "b", keyedPost none "c"]

theorem one_task_per_key_retried :
    ((retriedPosts.foldl Store.apply .empty).filed ("agent", "same-key")).length ≤ 1 := by
  have run : Run (Guarded Store.Step Unbroken) .empty retriedPosts
    (retriedPosts.foldl Store.apply .empty) :=
    .cons ⟨rfl, by decide, by decide⟩ (.cons ⟨rfl, trivial⟩
      (.cons ⟨rfl, by decide, by decide⟩ (.cons ⟨rfl, by decide, by decide⟩ (.nil _))))
  exact one_task_per_key run ("agent", "same-key")

/-- A crash after the task is committed and before its receipt is recorded: the retry commits a
second task. -/
theorem crash_files_two : ∃ s, Run Store.Step .empty
    [keyedPost (some 6) "a", .restart none (fun _ => 5), keyedPost none "b"] s ∧
    (s.filed ("agent", "same-key")).length = 2 := by
  refine ⟨_, .cons rfl (.cons rfl (.cons rfl (.nil _))), ?_⟩
  decide +kernel

variable {calls : List TaskCall} {faults : Option Nat}

/-- A run of a template is all or nothing exactly when every draft is submitted or the first one
fails before its task is committed. -/
theorem template_all_or_nothing_iff :
    AllOrNothing calls s (runTemplate (some calls) faults s) ↔
      submitsAll calls faults s = true ∨ refusesFirst calls faults s := by
  rw [runTemplate_eq]
  constructor
  · rintro (⟨answered, _⟩ | ⟨raised, same⟩)
    · left
      rcases outcome : Work.each (fun call => submit call none) calls faults s with ⟨value, t, rest⟩
      rw [outcome] at answered
      cases value with
      | some records => exact submitted_some outcome
      | none => cases answered
    · right
      rcases outcome : Work.each (fun call => submit call none) calls faults s with ⟨value, t, rest⟩
      rw [outcome] at raised same
      cases value with
      | some records => cases raised
      | none =>
        subst same
        exact each_refuses outcome
  · rintro (all | refused)
    · obtain ⟨records, t, rest, ran, named, entries, ids, commits⟩ := submitted_all all
      rw [ran]
      exact .inl ⟨congrArg some named, entries, ids, commits⟩
    · cases calls with
      | nil => cases refused
      | cons call others =>
        obtain ⟨left, ran⟩ := each_refused others refused
        rw [ran]
        exact .inr ⟨rfl, rfl⟩

/-- The first draft is stored and the second cannot be prepared. -/
def halfTemplate : List TaskCall :=
  [⟨some (TaskCreate.keyed []).draft, "2026", fun _ => 5, "a", "2026"⟩,
    ⟨none, "2026", fun _ => 5, "b", "2026"⟩]

theorem template_stores_half :
    ¬ AllOrNothing halfTemplate .empty (runTemplate (some halfTemplate) none .empty) := by
  rintro (⟨answered, _⟩ | ⟨_, same⟩)
  · have raised : (runTemplate (some halfTemplate) none .empty).value.isNone = true := by decide +kernel
    rw [answered] at raised
    cases raised
  · have stored : (runTemplate (some halfTemplate) none .empty).state.commits.length = 1 := by
      decide +kernel
    rw [same] at stored
    cases stored

end Runs
end LocalFlow
