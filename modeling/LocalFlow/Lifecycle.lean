import LocalFlow.Service.Updates

/-! What one edit keeps, a whole run keeps: the exclusion of active tasks, and the agreement of each
row with its history. -/
namespace LocalFlow

section Runs
open Transition
variable {config : Config} {s t u : System} {acts more : List Act}

theorem changes_run (run : Run (Step config) s acts t) : Changes (fun _ => True) s.db t.db :=
  run.relates (R := fun s t => Changes _ s.db t.db) (fun _ => .refl) .trans
    (fun stepped => changes_step stepped (fun _ _ => trivial))

/-- From any database in which active tasks exclude each other, no run makes two active tasks share
a key; and no call of `_schedule` admits beyond the limit, whatever was active when it began. -/
theorem exclusion_and_capacity (run : Run (Step config) s acts t) (exclusive : Exclusive s.db) :
    Exclusive t.db ∧ ∀ limit, config.maxConcurrency = some limit → ∀ faults (caller : System),
      ((caller.schedule config faults).state.db.activeCount : Int) ≤
        max limit caller.db.activeCount := by
  refine ⟨(changes_run run).exclusive exclusive, fun limit isLimit faults caller => ?_⟩
  have bound := schedule_capacity limit caller.wall caller.monotonic
    ⟨{ db := caller.db, cursor := caller.queueCursor }, faults, false⟩
  rw [← isLimit] at bound
  exact bound

theorem exclusive_empty : Exclusive .empty := by
  intro a b first second _ found
  cases found

/-- Two tasks with different keys, both admitted by the first turn of the loop. -/
def twoStarted : List Act :=
  firstStart ++ [.submit "a" (.keyed ["port"]), .submit "b" (.keyed ["disk"]), .tick "" none]

theorem exclusion_and_capacity_pair : ∃ t,
    steps (.plain .systemd) (.initial "boot" "2026" .missing) twoStarted = some t ∧
    (t.db.allTasks activeStates).map TaskRecord.id = ["a", "b"] ∧ Exclusive t.db ∧
    ∀ limit, (Config.plain .systemd).maxConcurrency = some limit → ∀ faults (caller : System),
      ((caller.schedule (.plain .systemd) faults).state.db.activeCount : Int) ≤
        max limit caller.db.activeCount := by
  have started : (steps (.plain .systemd) (.initial "boot" "2026" .missing) twoStarted).any (fun t =>
      (t.db.allTasks activeStates).map TaskRecord.id = ["a", "b"]) = true := by decide +kernel
  obtain ⟨t, ran, active⟩ := Option.any_eq_true _ _ |>.mp started
  exact ⟨t, ran, of_decide_eq_true active, exclusion_and_capacity (steps_run ran) exclusive_empty⟩

/-- One state of a task may follow another later in its life. -/
abbrev Follows : TaskState → TaskState → Prop :=
  Relation.ReflTransGen (fun a b => a.mayBecome b = true)

theorem follows_chain {early late : List TaskState} {a b : TaskState}
    (moves : (early ++ late).IsChain (fun a b => a.mayBecome b = true))
    (first : early.getLast? = some a) (last : (early ++ late).getLast? = some b) : Follows a b := by
  induction late generalizing early a with
  | nil =>
    rw [List.append_nil, first, Option.some.injEq] at last
    exact last ▸ .refl
  | cons next rest ih =>
    have step : a.mayBecome next = true :=
      (List.isChain_append.mp moves).2.2 a (by rw [first]; rfl) next rfl
    have split : early ++ next :: rest = early ++ [next] ++ rest := by simp
    rw [split] at moves last
    exact .head step (ih moves (by simp) last)

theorem Follows.terminal {a b : TaskState} (follows : Follows a b) (ended : a.terminal = true) :
    b = a := by
  obtain rfl | ⟨c, step, _⟩ := follows.cases_head
  · rfl
  · rw [TaskState.mayBecome_not_terminal step] at ended
    cases ended

theorem Follows.started {a b : TaskState} (follows : Follows a b) (started : a ≠ .queued) :
    b ≠ .queued := by
  obtain rfl | ⟨c, _, step⟩ := follows.cases_tail
  · exact started
  · exact TaskState.mayBecome_not_queued step

/-- A row that is there after some updates was there before them, earlier in its life. -/
theorem Updates.follows {db next : Db} {id : TaskId} (updates : Updates db next) {new : TaskRecord}
    (found : next.getTask id = some new) :
    ∃ old, db.getTask id = some old ∧ Follows old.state new.state := by
  induction updates generalizing new with
  | refl => exact ⟨new, found, .refl⟩
  | tail _ edit ih =>
    obtain ⟨_, _, _, impossible, _⟩ | ⟨middle, stored, moved⟩ := edit.origin found
    · exact absurd impossible not_false
    · obtain ⟨old, isOld, follows⟩ := ih stored
      refine ⟨old, isOld, ?_⟩
      obtain rfl | ⟨set, frame, rfl⟩ | ⟨_, _, _, legal, _, rfl⟩ := moved
      · exact follows
      · rw [frame.state]
        exact follows
      · exact follows.tail legal

theorem Follows.stopping {b : TaskState} (follows : Follows .stopping b) :
    b = .stopping ∨ b.terminal = true := by
  induction follows with
  | refl => exact .inl rfl
  | tail _ step ih =>
    obtain rfl | ended := ih
    · simpa [TaskState.mayBecome] using step
    · rw [TaskState.mayBecome_not_terminal step] at ended
      cases ended

theorem agrees_run {boot wall : String} {receipt : Receipt}
    (run : Run (Step config) (System.initial boot wall receipt) acts t) (id : TaskId) :
    Agrees t.db id :=
  (changes_run run).agrees id (agrees_empty id)

theorem follows_run {id : TaskId} (agrees : Agrees s.db id) (run : Run (Step config) s acts t)
    {before after : TaskRecord} (was : s.db.getTask id = some before)
    (is : t.db.getTask id = some after) : Follows before.state after.state := by
  have changes := changes_run run
  obtain ⟨later, grown⟩ := changes.written_grows id
  have now := changes.agrees id agrees
  have last := now.current after is
  have nonempty : t.db.written id ≠ [] := fun none => by simp [none] at last
  have moves := (now.history nonempty).moves
  rw [← grown] at moves last
  exact follows_chain moves (agrees.current before was) last

/-- What two points of a run say about the life of a task. -/
structure Steady (before after : TaskRecord) : Prop where
  ended : before.state.terminal = true → after.state = before.state
  started : before.state ≠ .queued → after.state ≠ .queued
  stopping : before.state = .stopping → after.state ≠ .starting ∧ after.state ≠ .running

/-- One event per committed transition, and nothing at all for any other. -/
def Db.Records (db : Db) : Prop :=
  ∀ now id expected state fields override,
    let result := db.transition now id expected state fields override
    (result.2 = .committed → result.1.journal = db.journal ++ [(id, state)] ∧ ∃ event : EventRecord,
      result.1.events.rows = db.events.rows ++ [event] ∧ event.taskId = some id ∧
      event.kind = lifecycleKind state) ∧
    (result.2 ≠ .committed → result.1 = db)

theorem records (db : Db) : db.Records := by
  intro now id expected state fields override
  obtain ⟨same, _⟩ | ⟨same, _⟩ | ⟨row, status, _, _, moved⟩ :=
    db.transition_cases now id expected state fields override
  · simp [same]
  · simp [same]
  · rw [moved]
    exact ⟨fun _ => ⟨rfl, _, rfl, rfl, rfl⟩, fun refused => absurd rfl refused⟩

/-- From an empty database: a task ends once, never waits again and never runs again once it stops;
its end is stamped exactly when it has ended; and while none of its events is deleted, its
lifecycle events are the states its committed transitions wrote, from queued on. -/
theorem lifecycle_agrees {boot wall : String} {receipt : Receipt}
    (run : Run (Step config) (System.initial boot wall receipt) acts t)
    (later : Run (Step config) t more u) (id : TaskId) :
    (∀ before after, t.db.getTask id = some before → u.db.getTask id = some after →
      Steady before after) ∧
    (∀ row, t.db.getTask id = some row → (row.endedAt.isSome = true ↔ row.state.terminal = true) ∧
      (t.db.written id).head? = some .queued ∧ (t.db.written id).getLast? = some row.state) ∧
    ((∀ event ∈ t.db.events.deleted, event.taskId ≠ some id) →
      (t.db.events.kindsOf id).filter isLifecycle = (t.db.written id).map lifecycleKind) ∧
    t.db.Records := by
  have agrees := agrees_run run id
  refine ⟨fun before after was is => ?_, fun row found => ?_, agrees.events, records t.db⟩
  · have follows := follows_run agrees later was is
    refine ⟨follows.terminal, follows.started, fun stopping => ?_⟩
    rw [stopping] at follows
    obtain same | ended := follows.stopping
    · simp [same]
    · constructor <;> rintro bad <;> rw [bad] at ended <;> cases ended
  · have last := agrees.current row found
    have nonempty : t.db.written id ≠ [] := fun none => by simp [none] at last
    exact ⟨agrees.ended row found, (agrees.history nonempty).starts, last⟩

/-- A task from its admission to its end. -/
def oneEnded : List Act :=
  [.tick "" none, .task "a" .startBegin, .task "a" .accept, .task "a" (.startReturn 1),
    .task "a" .waitBegin, .task "a" (.exit (.code 0)), .task "a" .waitReturn,
    .task "a" (.waitEvaluated .nothing)]

theorem lifecycle_agrees_ended : ∃ t u before after,
    steps (.plain .subprocess) (.initial "boot" "2026" .missing)
      (firstStart ++ [.submit "a" (.keyed [])]) = some t ∧
    steps (.plain .subprocess) t oneEnded = some u ∧
    t.db.getTask "a" = some before ∧ u.db.getTask "a" = some after ∧
    after.state = .succeeded ∧ Steady before after ∧ t.db.Records := by
  have ended : (steps (.plain .subprocess) (.initial "boot" "2026" .missing)
      (firstStart ++ [.submit "a" (.keyed [])])).any (fun t => (t.db.getTask "a").isSome &&
        (steps (.plain .subprocess) t oneEnded).any (fun u =>
          (u.db.getTask "a").any (fun after => after.state = .succeeded))) = true := by
    decide +kernel
  obtain ⟨t, ran, both⟩ := Option.any_eq_true _ _ |>.mp ended
  obtain ⟨stored, later⟩ := Bool.and_eq_true _ _ |>.mp both
  obtain ⟨before, was⟩ := Option.isSome_iff_exists.mp stored
  obtain ⟨u, went, last⟩ := Option.any_eq_true _ _ |>.mp later
  obtain ⟨after, is, succeeded⟩ := Option.any_eq_true _ _ |>.mp last
  have agree := lifecycle_agrees (steps_run ran) (steps_run went) "a"
  exact ⟨t, u, before, after, ran, went, was, is, of_decide_eq_true succeeded,
    agree.1 before after was is, agree.2.2.2⟩

end Runs
end LocalFlow
