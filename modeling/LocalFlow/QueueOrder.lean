import LocalFlow.Progress

/-! Order of admission among tasks that ask for the same keys. The scan visits a page in queue
order, but it starts at a cursor that an earlier call saved. -/
namespace LocalFlow
open Faults Transition

inductive Move where
  | tick | other
  deriving DecidableEq

/-- A call of `_schedule`, which may raise half-way, or any change of the database that starts
nothing. A new controller begins without a cursor. -/
inductive QueueMove (maxConcurrency : Option Int) (queue : Queue) : Move → Queue → Prop where
  | tick (now : String) (monotonic : Seconds) (faults : Option Nat) (done : Turn Scan)
      (isDone : schedule maxConcurrency now monotonic
        ⟨{ db := queue.db, cursor := queue.cursor }, faults, false⟩ = done) :
      QueueMove maxConcurrency queue .tick ⟨done.state.db, done.state.cursor⟩
  | other (next : Queue) (changes : Changes (fun _ => True) queue.db next.db)
      (written : List (TaskId × TaskState))
      (journal : next.db.journal = queue.db.journal ++ written)
      (quiet : ∀ entry ∈ written, entry.2 ≠ .starting)
      (cursor : next.cursor = queue.cursor ∨ next.cursor = none) :
      QueueMove maxConcurrency queue .other next

def SameKeys (first second : Brief) : Prop :=
  first.mutexKeys ≠ [] ∧ ∀ key, key ∈ first.mutexKeys ↔ key ∈ second.mutexKeys

/-- The later of two queued tasks with the same keys is moved to starting while the earlier one is
still queued. -/
structure Overtakes (queue next : Queue) (first second : Brief) : Prop where
  earlier : first ∈ queue.db.briefs ∧ first.state = .queued
  later : second ∈ queue.db.briefs ∧ second.state = .queued
  keys : SameKeys first second
  order : first.key < second.key
  started : ∃ before after,
    next.db.journal = queue.db.journal ++ before ++ (second.id, TaskState.starting) :: after ∧
    ∀ entry ∈ before, entry.1 ≠ first.id

/-- No task the cursor has passed could start while a task behind the cursor waits for the same
keys. -/
def Queue.InOrder (queue : Queue) : Prop :=
  ∀ first ∈ queue.db.briefs, ∀ second ∈ queue.db.briefs,
    first.state = .queued → second.state = .queued → SameKeys first second →
    ¬ Keyset.After Brief.key queue.cursor first → Keyset.After Brief.key queue.cursor second →
    queue.db.Blocked first.mutexKeys

def TickInOrder (queue : Queue) (move : Move) : Prop :=
  move = .tick → queue.InOrder

variable {maxConcurrency : Option Int} {queue next : Queue} {first second : Brief}
  {now : String} {monotonic : Seconds}

theorem order_append {α : Type} {xs ys zs ws : List α} (same : xs ++ ys = xs ++ zs ++ ws) :
    ys = zs ++ ws := by
  rw [List.append_assoc] at same
  exact List.append_cancel_left same

/-- In the queue, a task with a smaller key stands before a task with a greater one. -/
theorem front_of_lt {rows front back : List TaskRecord} {row task : TaskRecord}
    (strict : rows.Pairwise (fun a b => a.sortKey < b.sortKey))
    (split : rows = front ++ task :: back) (member : row ∈ rows) (below : row.sortKey < task.sortKey) :
    row ∈ front := by
  rw [split, List.pairwise_append, List.pairwise_cons] at strict
  rw [split, List.mem_append, List.mem_cons] at member
  obtain early | rfl | late := member
  · exact early
  · exact absurd below (lt_irrefl _)
  · exact absurd (below.trans (strict.2.1.1 row late)) (lt_irrefl _)

/-- While the scan stands before `second`, a task it is done with and that is still queued shares a
key with a holder, so a task with the same keys does too. -/
theorem not_settled {scan : Scan} {task : TaskRecord} (keys : SameKeys first second)
    (same : second.mutexKeys = task.mutexKeys) (clear : scan.shared task = [])
    (held : ∃ key ∈ first.mutexKeys, key ∈ scan.holders.map Prod.fst) : False := by
  obtain ⟨key, own, holding⟩ := held
  have shared : key ∈ scan.shared task :=
    Scan.mem_shared.mpr ⟨same ▸ (keys.2 key).mp own, holding⟩
  rw [clear] at shared
  cases shared

/-- Whatever a scan admits second was not free while an equal task waited before it. -/
theorem swept_keeps_order {turn : Turn Scan} {page : List TaskRecord} {limit : Nat}
    {cursor : Option SortKey} {new : List TaskId} (swept : Swept turn page now monotonic new)
    (tracks : turn.state.Tracks)
    (isPage : page = Keyset.page TaskRecord.sortKey limit cursor (turn.state.db.inStates [.queued]))
    (earlier : first ∈ turn.state.db.briefs ∧ first.state = .queued)
    (later : second ∈ turn.state.db.briefs) (keys : SameKeys first second)
    (order : first.key < second.key)
    (inOrder : ¬ Keyset.After Brief.key cursor first → Keyset.After Brief.key cursor second →
      turn.state.db.Blocked first.mutexKeys)
    {before after : List TaskId} (split : new = before ++ second.id :: after) :
    first.id ∈ before := by
  obtain ⟨front, task, back, rfl, named, advance, settled, clear⟩ :=
    swept.order before second.id after split
  have listed : task ∈ Keyset.page TaskRecord.sortKey limit cursor
      (turn.state.db.inStates [.queued]) := isPage ▸ (by simp)
  obtain ⟨queuedRow, behind⟩ := Keyset.mem_page listed
  have stored : task.brief ∈ turn.state.db.briefs :=
    List.mem_map_of_mem (List.mem_filter.mp queuedRow).1
  have twin : second = task.brief := briefs_unique later stored named.symm
  have same : second.mutexKeys = task.mutexKeys := by rw [twin]; rfl
  by_contra waits
  by_cases reached : Keyset.After Brief.key cursor first
  · -- the earlier task is on the page, before the later one
    obtain ⟨row, rfl, member⟩ := queued_remaining earlier.1 earlier.2 reached
    have strict := (Db.distinct_inStates turn.state.db [.queued]).remaining_strict cursor
    have whole : Keyset.remaining TaskRecord.sortKey cursor (turn.state.db.inStates [.queued]) =
        front ++ task :: (back ++ (Keyset.remaining TaskRecord.sortKey cursor
          (turn.state.db.inStates [.queued])).drop limit) := by
      rw [← List.cons_append, ← List.append_assoc, isPage]
      exact (List.take_append_drop limit _).symm
    have below : row.sortKey < task.sortKey := by rw [twin] at order; exact order
    obtain held | gone := settled row (front_of_lt strict whole member below)
    · exact not_settled keys same clear held
    · refine gone row.brief ?_ rfl earlier.2
      rw [advance.briefs]
      exact List.mem_map.mpr ⟨row.brief, earlier.1, by simp [Brief.start, waits]⟩
  · -- the cursor has passed the earlier task, whose keys are taken
    have after : Keyset.After Brief.key cursor second := by
      rw [twin]
      cases cursor <;> exact behind
    obtain ⟨holder, isHolder, active, key, own, held⟩ := inOrder reached after
    exact not_settled keys same clear
      ⟨key, own, advance.holders key ((tracks key).mpr ⟨holder, isHolder, active, held⟩)⟩

theorem tick_keeps_order (step : QueueMove maxConcurrency queue .tick next)
    (inOrder : queue.InOrder) : ¬ Overtakes queue next first second := by
  rintro ⟨earlier, later, keys, order, before, after, journal, waits⟩
  cases step with
  | tick now monotonic faults done isDone =>
    have call := schedule_call maxConcurrency now monotonic
      ⟨{ db := queue.db, cursor := queue.cursor }, faults, false⟩
    rw [isDone] at call
    cases call with
    | idle _ db started why =>
      rw [db, List.append_assoc] at journal
      simpa using congrArg List.length journal
    | scanned ready page limit new fine going state places isLimit isPage swept =>
      have range : 1 ≤ limit ∧ limit ≤ taskPageSize := isLimit ▸ scanLimit_range _
      have written := swept.advance.journal
      rw [(save_state _ _ _).1, written, state] at journal
      obtain ⟨new1, rest, rfl, rfl, isRest⟩ := List.map_eq_append_iff.mp (order_append journal)
      obtain ⟨id, new2, rfl, isEntry, -⟩ := List.map_eq_cons_iff.mp isRest
      obtain rfl : id = second.id := congrArg Prod.fst isEntry
      have isCursor := queuedPage_cursor queue range
      have samePage : page = Keyset.page TaskRecord.sortKey limit
          (if queue.waiting = 0 then none else queue.cursor) (ready.state.db.inStates [.queued]) := by
        have size : min (max limit 1) taskPageSize = limit := by omega
        rw [isPage, queuedPage_page, isCursor, Db.statePage_eq queue.db [.queued] (by simp),
          size, state]
      refine waits (first.id, .starting) (List.mem_map.mpr ⟨first.id, ?_, rfl⟩) rfl
      refine swept_keeps_order swept (tracks_holdersOf _ (by rw [state])) samePage
        (by rw [state]; exact earlier) (by rw [state]; exact later.1) keys order ?_ rfl
      intro passed behind
      rw [state]
      split at passed
      · exact absurd trivial passed
      · rename_i some_left
        rw [if_neg some_left] at behind
        exact inOrder first earlier.1 second later.1 earlier.2 later.2 keys passed behind

theorem other_keeps_order (step : QueueMove maxConcurrency queue .other next) :
    ¬ Overtakes queue next first second := by
  rintro ⟨-, -, -, -, before, after, journal, -⟩
  cases step with
  | other _ changes written isWritten quiet cursor =>
    rw [isWritten] at journal
    have same := order_append journal
    exact quiet (second.id, .starting) (by rw [same]; simp) rfl

/-- A step in which no task is overtaken. -/
def Orderly (maxConcurrency : Option Int) (queue : Queue) (move : Move) (next : Queue) : Prop :=
  QueueMove maxConcurrency queue move next ∧ ∀ first second, ¬ Overtakes queue next first second

theorem orderly_step {move : Move}
    (step : Guarded (QueueMove maxConcurrency) TickInOrder queue move next) :
    Orderly maxConcurrency queue move next := by
  obtain ⟨step, guard⟩ := step
  refine ⟨step, fun first second => ?_⟩
  cases move with
  | tick => exact tick_keeps_order step (guard rfl)
  | other => exact other_keeps_order step

/-- A run whose calls of `_schedule` all begin in order is a run in which no task is overtaken by
one that asks for the same keys. -/
theorem first_in_first_out {moves : List Move}
    (run : Run (Guarded (QueueMove maxConcurrency) TickInOrder) queue moves next) :
    Run (Orderly maxConcurrency) queue moves next :=
  run.mono orderly_step

section Scenario

theorem tick_move (maxConcurrency : Option Int) (now : String) (monotonic : Seconds)
    (queue : Queue) :
    QueueMove maxConcurrency queue .tick (queue.tick maxConcurrency now monotonic) :=
  .tick now monotonic none _ rfl

def Queue.submit (queue : Queue) (now : String) (id : TaskId) (keys : List String) : Queue :=
  ⟨(queue.db.createTask now id (.keyed keys)).getD queue.db, queue.cursor⟩

theorem submit_move (queue : Queue) (now : String) (id : TaskId) (keys : List String)
    (unused : queue.db.written id = [])
    (created : (queue.db.createTask now id (.keyed keys)).isSome) :
    QueueMove maxConcurrency queue .other (queue.submit now id keys) := by
  obtain ⟨db, isDb⟩ := Option.isSome_iff_exists.mp created
  have isNext : queue.submit now id keys = ⟨db, queue.cursor⟩ := by simp [Queue.submit, isDb]
  obtain ⟨status, tasks, -, -, rfl⟩ := Db.insertTask_some isDb
  rw [isNext]
  exact .other _ (changes_createTask trivial unused isDb) [(id, .queued)] rfl (by simp) (.inl rfl)

/-- A starting task fails. -/
def Queue.fail (queue : Queue) (now : String) (id : TaskId) : Queue :=
  ⟨(queue.db.transition now id [.starting] .failed [.endedAt now, .exitCode 127]).1, queue.cursor⟩

theorem fail_move (queue : Queue) (now : String) (id : TaskId) :
    QueueMove maxConcurrency queue .other (queue.fail now id) := by
  have changes : Changes (fun _ => True) queue.db (queue.fail now id).db :=
    (update_transition _ _ _ _ _ _ _ (by simp [TaskState.mayBecome])
      ⟨fun _ _ => rfl, fun running => absurd running (by decide), fun _ _ => rfl, fun _ _ => rfl⟩
      (by decide)).updates.changes
  obtain ⟨same, _⟩ | ⟨same, _⟩ | ⟨row, status, found, expects, moved⟩ := queue.db.transition_cases now
    id [.starting] .failed [.endedAt now, .exitCode 127] none
  · exact .other _ changes [] (by simp [Queue.fail, same]) (by simp) (.inl rfl)
  · exact .other _ changes [] (by simp [Queue.fail, same]) (by simp) (.inl rfl)
  · exact .other _ changes [(id, .failed)] (by simp [Queue.fail, moved, Db.move, Db.addEvent])
      (by simp) (.inl rfl)

/-- No waiting task has been passed by the cursor. -/
theorem inOrder_of_after (ahead : ∀ brief ∈ queue.db.briefs, brief.state = .queued →
    Keyset.After Brief.key queue.cursor brief) : queue.InOrder :=
  fun first member _ _ queued _ _ passed => absurd (ahead first member queued) passed

/-- Task `h` runs with key `k`; `x`, `a` and `b` are queued behind it. -/
def linedQueue : Queue :=
  (((((Queue.mk .empty none).submit "1" "h" ["k"]).tick (some 2) "2" 0).submit "3" "x" []).submit
    "4" "a" ["k"]).submit "5" "b" ["k"]

/-- The scan admitted `x` and saved its place there, and then `h` ended. -/
def resumedQueue : Queue := (linedQueue.tick (some 2) "6" 1).fail "7" "h"

/-- From an empty database to a scan that goes on from a saved cursor and starts `a` before `b`. -/
theorem first_in_first_out_resumed : resumedQueue.cursor.isSome ∧
    Run (Orderly (some 2)) ⟨.empty, none⟩ [.other, .tick, .other, .other, .other, .tick, .other, .tick]
      (resumedQueue.tick (some 2) "8" 2) := by
  have quiet : ∀ {queue : Queue}, TickInOrder queue .other := nofun
  refine ⟨by decide +kernel, first_in_first_out ?_⟩
  refine .cons ⟨submit_move _ "1" "h" ["k"] (by decide) (by decide), quiet⟩ ?_
  refine .cons ⟨tick_move (some 2) "2" 0 _, fun _ => inOrder_of_after (by decide +kernel)⟩ ?_
  refine .cons ⟨submit_move _ "3" "x" [] (by decide) (by decide), quiet⟩ ?_
  refine .cons ⟨submit_move _ "4" "a" ["k"] (by decide) (by decide), quiet⟩ ?_
  refine .cons ⟨submit_move _ "5" "b" ["k"] (by decide) (by decide), quiet⟩ ?_
  refine .cons ⟨tick_move (some 2) "6" 1 _, fun _ => inOrder_of_after (by decide +kernel)⟩ ?_
  refine .cons ⟨fail_move _ "7" "h", quiet⟩ (.single ?_)
  exact ⟨tick_move (some 2) "8" 2 _, fun _ => inOrder_of_after (by decide +kernel)⟩

/-- Task `h` runs with key `k`; `a`, `x` and `b` are queued behind it. -/
def heldQueue : Queue :=
  (((((Queue.mk .empty none).submit "1" "h" ["k"]).tick (some 2) "2" 0).submit "3" "a" ["k"]).submit
    "4" "x" []).submit "5" "b" ["k"]

/-- The scan admitted `x`, ran out of places before `b`, and then `h` ended. -/
def passedQueue : Queue := (heldQueue.tick (some 2) "6" 1).fail "7" "h"

/-- From an empty database, a cursor saved when the places ran out lets a later task overtake. -/
theorem cursor_overtakes : ∃ moves next first second,
    Run (QueueMove (some 2)) ⟨.empty, none⟩ moves passedQueue ∧
    QueueMove (some 2) passedQueue .tick next ∧ Overtakes passedQueue next first second := by
  refine ⟨[.other, .tick, .other, .other, .other, .tick, .other], _,
    ⟨"a", "3", ["k"], .queued⟩, ⟨"b", "5", ["k"], .queued⟩, ?_, tick_move (some 2) "8" 2 _, ?_⟩
  · refine .cons (submit_move _ "1" "h" ["k"] (by decide) (by decide)) ?_
    refine .cons (tick_move (some 2) "2" 0 _) ?_
    refine .cons (submit_move _ "3" "a" ["k"] (by decide) (by decide)) ?_
    refine .cons (submit_move _ "4" "x" [] (by decide) (by decide)) ?_
    refine .cons (submit_move _ "5" "b" ["k"] (by decide) (by decide)) ?_
    exact .cons (tick_move (some 2) "6" 1 _) (.single (fail_move _ "7" "h"))
  · refine ⟨by decide +kernel, by decide +kernel, ⟨by decide, fun _ => Iff.rfl⟩, by decide,
      [], [], by decide +kernel, by simp⟩

end Scenario
end LocalFlow
