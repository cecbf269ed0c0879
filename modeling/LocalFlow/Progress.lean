import LocalFlow.Admission
import LocalFlow.Library.Run

/-! Progress of the paged scan: while the queue and the active set are left alone, two passes over
the queue are enough to fill the free places or to block every task still queued. -/
namespace LocalFlow
open Faults

/-- The database and the cursor one call of `_schedule` leaves for the next. -/
structure Queue where
  db : Db
  cursor : Option SortKey

/-- A call of `_schedule` that returns. -/
def Completes (maxConcurrency : Option Int) (queue next : Queue) : Prop :=
  ∃ now monotonic faults, ∃ done : Turn Scan,
    schedule maxConcurrency now monotonic ⟨{ db := queue.db, cursor := queue.cursor }, faults, false⟩
      = done ∧ done.raised = false ∧ next = ⟨done.state.db, done.state.cursor⟩

/-- The active states as one. -/
def Brief.role (brief : Brief) : Brief :=
  { brief with state := if brief.state = .queued then .queued else .running }

/-- The queued and the active tasks with their keys, whichever active state each is in. -/
def Db.roles (db : Db) : List Brief :=
  (db.briefs.filter (fun brief => !brief.state.terminal)).map Brief.role

/-- Any other step while no task is submitted, interrupted or finished. -/
structure Calm (queue next : Queue) : Prop where
  cursor : next.cursor = queue.cursor
  roles : next.db.roles.Perm queue.db.roles

inductive Pass where
  | tick | other
  deriving DecidableEq

def QueueStep (maxConcurrency : Option Int) (queue : Queue) : Pass → Queue → Prop
  | .tick, next => Completes maxConcurrency queue next
  | .other, next => Calm queue next

def Db.queuedCount (db : Db) : Nat := db.briefs.countP (fun brief => brief.state = .queued)

/-- The smallest page a call may scan. -/
def pageFloor : Option Int → Nat
  | none => taskPageSize
  | some _ => 500

def pages (tasks size : Nat) : Nat := (tasks + (size - 1)) / size

/-- The task shares a key with an active one. -/
def Db.Blocked (db : Db) (keys : List String) : Prop :=
  ∃ holder ∈ db.briefs, holder.state.active = true ∧ ∃ key ∈ keys, key ∈ holder.mutexKeys

/-- The places are taken, or no queued task could start. -/
def Saturated (maxConcurrency : Option Int) (db : Db) : Prop :=
  (∃ limit, maxConcurrency = some limit ∧ limit ≤ db.activeCount) ∨
  ∀ brief ∈ db.briefs, brief.state = .queued → db.Blocked brief.mutexKeys

def Brief.key (brief : Brief) : SortKey := toLex (brief.createdAt, brief.id)

/-- The queued tasks after the cursor. -/
def Queue.waiting (queue : Queue) : Nat :=
  queue.db.briefs.countP (fun brief =>
    brief.state = .queued && Keyset.After Brief.key queue.cursor brief)

/-- The scan has visited the queue up to the cursor and found it blocked. -/
def Queue.Visited (queue : Queue) : Prop :=
  ∀ brief ∈ queue.db.briefs, brief.state = .queued → ¬ Keyset.After Brief.key queue.cursor brief →
    queue.db.Blocked brief.mutexKeys

section Roles
variable {db next : Db}

theorem mem_roles {brief : Brief} :
    brief ∈ db.roles ↔ ∃ old ∈ db.briefs, old.state.terminal = false ∧ old.role = brief := by
  simp [Db.roles, and_assoc]

theorem mem_roles_queued {brief : Brief} (queued : brief.state = .queued) :
    brief ∈ db.roles ↔ brief ∈ db.briefs := by
  rw [mem_roles]
  constructor
  · rintro ⟨old, stored, _, rfl⟩
    unfold Brief.role at queued ⊢
    by_cases same : old.state = .queued
    · rw [if_pos same, ← same]
      exact stored
    · simp [same] at queued
  · intro stored
    refine ⟨brief, stored, by rw [queued]; rfl, ?_⟩
    unfold Brief.role
    rw [if_pos queued, ← queued]

theorem active_iff {state : TaskState} :
    state.active = true ↔ state.terminal = false ∧ state ≠ .queued := by
  cases state <;> simp [TaskState.active, TaskState.terminal]

theorem blocked_roles {keys : List String} : db.Blocked keys ↔
    ∃ holder ∈ db.roles, holder.state = .running ∧ ∃ key ∈ keys, key ∈ holder.mutexKeys := by
  constructor
  · rintro ⟨holder, stored, active, shared⟩
    obtain ⟨running, apart⟩ := active_iff.mp active
    exact ⟨holder.role, mem_roles.mpr ⟨holder, stored, running, rfl⟩, by simp [Brief.role, apart],
      shared⟩
  · rintro ⟨_, member, running, shared⟩
    obtain ⟨holder, stored, alive, rfl⟩ := mem_roles.mp member
    refine ⟨holder, stored, active_iff.mpr ⟨alive, fun queued => ?_⟩, shared⟩
    simp [Brief.role, queued] at running

theorem countP_roles (p : Brief → Bool) :
    db.roles.countP p = db.briefs.countP (fun brief => p brief.role && !brief.state.terminal) := by
  simp only [Db.roles, List.countP_map, List.countP_filter, Function.comp_apply]

theorem activeCount_roles :
    db.activeCount = db.roles.countP (fun brief => brief.state = .running) := by
  rw [countP_roles]
  refine List.countP_congr (fun brief _ => ?_)
  rw [active_iff]
  by_cases queued : brief.state = .queued <;> simp [Brief.role, queued]

theorem waiting_roles (queue : Queue) : queue.waiting = queue.db.roles.countP (fun brief =>
    brief.state = .queued && Keyset.After Brief.key queue.cursor brief) := by
  rw [countP_roles]
  refine List.countP_congr (fun brief _ => ?_)
  by_cases queued : brief.state = .queued
  · have same : brief.role = brief := by
      unfold Brief.role
      rw [if_pos queued, ← queued]
    simp [same, queued, TaskState.terminal]
  · simp [Brief.role, queued]

end Roles

section Steps
variable {maxConcurrency : Option Int} {queue next : Queue}

theorem Calm.waiting (calm : Calm queue next) : next.waiting = queue.waiting := by
  rw [waiting_roles, waiting_roles, calm.cursor]
  exact calm.roles.countP_eq _

theorem Calm.blocked (calm : Calm queue next) {keys : List String} :
    next.db.Blocked keys ↔ queue.db.Blocked keys := by
  rw [blocked_roles, blocked_roles]
  exact exists_congr (fun _ => and_congr_left (fun _ => calm.roles.mem_iff))

theorem Calm.visited (calm : Calm queue next) (visited : queue.Visited) : next.Visited := by
  intro brief stored queued seen
  rw [← mem_roles_queued queued, calm.roles.mem_iff, mem_roles_queued queued] at stored
  rw [calm.cursor] at seen
  exact calm.blocked.mpr (visited brief stored queued seen)

theorem Calm.saturated (calm : Calm queue next) (saturated : Saturated maxConcurrency queue.db) :
    Saturated maxConcurrency next.db := by
  refine saturated.imp ?_ ?_
  · rintro ⟨limit, isLimit, full⟩
    refine ⟨limit, isLimit, ?_⟩
    rw [activeCount_roles, calm.roles.countP_eq, ← activeCount_roles]
    exact full
  · intro blocked brief stored queued
    rw [← mem_roles_queued queued, calm.roles.mem_iff, mem_roles_queued queued] at stored
    exact calm.blocked.mpr (blocked brief stored queued)

/-- Admission keeps every blocked task blocked. -/
theorem blocked_admitted {db after : Db} {new : List TaskId} {keys : List String}
    (briefs : after.briefs = db.briefs.map (Brief.start new)) (blocked : db.Blocked keys) :
    after.Blocked keys := by
  obtain ⟨holder, stored, active, shared⟩ := blocked
  refine ⟨holder.start new, ?_, ?_, ?_⟩
  · rw [briefs]
    exact List.mem_map_of_mem stored
  · unfold Brief.start
    split
    · rfl
    · exact active
  · unfold Brief.start
    split <;> exact shared

theorem queued_admitted {db after : Db} {new : List TaskId} {brief : Brief}
    (briefs : after.briefs = db.briefs.map (Brief.start new)) (stored : brief ∈ after.briefs)
    (queued : brief.state = .queued) : brief ∈ db.briefs ∧ brief.id ∉ new := by
  rw [briefs, List.mem_map] at stored
  obtain ⟨old, member, rfl⟩ := stored
  unfold Brief.start at queued ⊢
  split at queued
  · cases queued
  · rename_i other
    rw [if_neg other]
    exact ⟨member, other⟩

theorem Completes.saturated (completes : Completes maxConcurrency queue next)
    (saturated : Saturated maxConcurrency queue.db) : Saturated maxConcurrency next.db := by
  obtain ⟨now, monotonic, faults, done, isDone, _, rfl⟩ := completes
  obtain ⟨new, admits⟩ := schedule_admits maxConcurrency now monotonic
    ⟨{ db := queue.db, cursor := queue.cursor }, faults, false⟩
  rw [isDone] at admits
  refine saturated.imp ?_ ?_
  · rintro ⟨limit, isLimit, full⟩
    have active := admits.active
    exact ⟨limit, isLimit, by simp only at active ⊢; omega⟩
  · intro blocked brief stored queued
    obtain ⟨member, _⟩ := queued_admitted admits.briefs stored queued
    exact blocked_admitted admits.briefs (blocked brief member queued)

/-- Counting the queued briefs after a cursor is counting the rows a page is taken from. -/
theorem waiting_eq (queue : Queue) : queue.waiting = (Keyset.remaining TaskRecord.sortKey
    queue.cursor (queue.db.inStates [.queued])).length := by
  rw [Keyset.remaining, (Keyset.ordered_perm _).length_eq, Db.inStates, List.filter_filter,
    ← List.countP_eq_length_filter, Queue.waiting, Db.briefs, List.countP_map]
  refine List.countP_congr (fun row _ => ?_)
  have same : Keyset.After Brief.key queue.cursor row.brief ↔
      Keyset.After TaskRecord.sortKey queue.cursor row := by
    cases queue.cursor <;> exact Iff.rfl
  simp only [Function.comp_apply, Bool.and_eq_true, decide_eq_true_eq, same, List.mem_singleton]
  exact and_comm

/-- One pass of the scan over a page of the queue. -/
structure Passes (db : Db) (cursor : Option SortKey) (limit : Nat) (next : Queue)
    (new : List TaskId) : Prop where
  briefs : next.db.briefs = db.briefs.map (Brief.start new)
  chosen : ∀ id ∈ new, ∃ task ∈ db.statePage [.queued] limit cursor, task.id = id
  settled : ∀ task ∈ db.statePage [.queued] limit cursor, ∀ brief ∈ next.db.briefs,
    brief.id = task.id → brief.state = .queued → next.db.Blocked brief.mutexKeys
  moved : next.cursor = if (db.statePage [.queued] limit cursor).length < limit then none
    else (db.statePage [.queued] limit cursor).getLast?.elim cursor (fun task => some task.sortKey)

variable {db : Db} {cursor : Option SortKey} {limit : Nat} {new : List TaskId}

theorem queued_remaining {brief : Brief} (stored : brief ∈ db.briefs) (queued : brief.state = .queued)
    (after : Keyset.After Brief.key cursor brief) : ∃ row, row.brief = brief ∧
      row ∈ Keyset.remaining TaskRecord.sortKey cursor (db.inStates [.queued]) := by
  obtain ⟨row, member, rfl⟩ := List.mem_map.mp stored
  refine ⟨row, rfl, Keyset.mem_remaining.mpr ⟨List.mem_filter.mpr ⟨member, ?_⟩, ?_⟩⟩
  · have state : row.state = .queued := queued
    simp [state]
  · cases cursor <;> exact after

theorem Passes.visited_apart (passes : Passes db cursor limit next new) {brief : Brief}
    (stored : brief ∈ next.db.briefs) (queued : brief.state = .queued)
    (visited : (Queue.mk db cursor).Visited)
    (before : ¬ Keyset.After Brief.key cursor brief) : next.db.Blocked brief.mutexKeys :=
  blocked_admitted passes.briefs
    (visited brief (queued_admitted passes.briefs stored queued).1 queued before)

/-- A short page reaches the end of the queue. -/
theorem Passes.short (passes : Passes db cursor limit next new)
    (range : 1 ≤ limit ∧ limit ≤ taskPageSize)
    (short : (db.statePage [.queued] limit cursor).length < limit)
    (visited : (Queue.mk db cursor).Visited) : Saturated maxConcurrency next.db := by
  refine .inr (fun brief stored queued => ?_)
  by_cases after : Keyset.After Brief.key cursor brief
  · obtain ⟨member, _⟩ := queued_admitted passes.briefs stored queued
    obtain ⟨row, rfl, listed⟩ := queued_remaining member queued after
    have isPage := Db.statePage_eq db [.queued] (by simp) limit cursor
    have size : min (max limit 1) taskPageSize = limit := by omega
    rw [size] at isPage
    refine passes.settled row ?_ _ stored rfl queued
    rw [isPage] at short ⊢
    rw [Keyset.length_page] at short
    rw [Keyset.page, List.take_of_length_le (by omega)]
    exact listed
  · exact passes.visited_apart stored queued visited after

/-- A full page moves the cursor over all of it. -/
theorem Passes.full (passes : Passes db cursor limit next new)
    (range : 1 ≤ limit ∧ limit ≤ taskPageSize)
    (full : ¬ (db.statePage [.queued] limit cursor).length < limit) :
    next.waiting + limit = (Queue.mk db cursor).waiting ∧
    ((Queue.mk db cursor).Visited → next.Visited) := by
  have distinct := Db.distinct_inStates db [.queued]
  have isPage := Db.statePage_eq db [.queued] (by simp) limit cursor
  have size : min (max limit 1) taskPageSize = limit := by omega
  rw [size] at isPage
  have long : limit ≤ (Keyset.remaining TaskRecord.sortKey cursor (db.inStates [.queued])).length := by
    rw [isPage, Keyset.length_page] at full
    omega
  obtain ⟨tail, last⟩ : ∃ tail, (db.statePage [.queued] limit cursor).getLast? = some tail := by
    cases last : (db.statePage [.queued] limit cursor).getLast? with
    | some tail => exact ⟨tail, rfl⟩
    | none =>
      rw [List.getLast?_eq_none_iff.mp last] at full
      exact absurd range.1 full
  have moved : next.cursor = some tail.sortKey := by
    rw [passes.moved, if_neg full, last]
    rfl
  rw [isPage] at last
  have rest := distinct.remaining_page last
  -- the page and what lies after its tail have no task in common
  have notAfter : ∀ brief ∈ db.briefs, brief.id ∈ new →
      ¬ Keyset.After Brief.key (some tail.sortKey) brief := by
    intro brief stored started
    obtain ⟨task, listed, named⟩ := passes.chosen _ started
    have twin : brief = task.brief := briefs_unique stored
      (mem_briefs.mpr ⟨task, (Db.mem_statePage (by simp) listed).1, rfl⟩) named.symm
    rw [isPage] at listed
    rw [twin]
    exact distinct.page_le last listed
  constructor
  · have later : next.waiting = (Queue.mk db (some tail.sortKey)).waiting := by
      rw [Queue.waiting, Queue.waiting, moved, passes.briefs, List.countP_map]
      refine List.countP_congr (fun brief stored => ?_)
      by_cases started : brief.id ∈ new
      · simp [Brief.start, started, notAfter brief stored started]
      · simp [Brief.start, started]
    rw [later, waiting_eq, waiting_eq, rest, List.length_drop]
    exact Nat.sub_add_cancel long
  · intro visited brief stored queued seen
    rw [moved] at seen
    by_cases after : Keyset.After Brief.key cursor brief
    · obtain ⟨member, _⟩ := queued_admitted passes.briefs stored queued
      obtain ⟨row, rfl, listed⟩ := queued_remaining member queued after
      refine passes.settled row ?_ _ stored rfl queued
      rw [isPage]
      by_contra beyond
      have dropped : row ∈ (Keyset.remaining TaskRecord.sortKey cursor (db.inStates [.queued])).drop
          limit := by
        rw [← List.take_append_drop limit (Keyset.remaining _ _ _), List.mem_append] at listed
        exact listed.resolve_left beyond
      rw [← rest, Keyset.mem_remaining] at dropped
      exact seen dropped.2
    · exact passes.visited_apart stored queued visited after

theorem scanLimit_range (capacity : Option Nat) :
    1 ≤ scanLimit capacity ∧ scanLimit capacity ≤ taskPageSize := by
  cases capacity <;> simp [scanLimit, taskPageSize]

theorem pageFloor_le (active : Nat) :
    pageFloor maxConcurrency ≤ scanLimit (freeCapacity maxConcurrency active) := by
  cases maxConcurrency with
  | none => exact le_rfl
  | some limit =>
    simp only [pageFloor, freeCapacity, Option.map_some, scanLimit, taskPageSize]
    omega

theorem queuedPage_page (db : Db) (limit : Nat) (cursor : Option SortKey) :
    (queuedPage db limit cursor).2 = db.statePage [.queued] limit (queuedPage db limit cursor).1 := by
  unfold queuedPage
  dsimp only
  split <;> rfl

/-- The scan wraps around exactly when nothing is left after its cursor. -/
theorem queuedPage_cursor (queue : Queue) {limit : Nat} (range : 1 ≤ limit ∧ limit ≤ taskPageSize) :
    (queuedPage queue.db limit queue.cursor).1 =
      if queue.waiting = 0 then none else queue.cursor := by
  have isPage := Db.statePage_eq queue.db [.queued] (by simp) limit queue.cursor
  have size : min (max limit 1) taskPageSize = limit := by omega
  have empty : (queue.db.statePage [.queued] limit queue.cursor).isEmpty = true ↔
      queue.waiting = 0 := by
    rw [List.isEmpty_iff, ← List.length_eq_zero_iff, isPage, size, Keyset.length_page, ← waiting_eq]
    omega
  unfold queuedPage
  dsimp only
  simp only [empty]
  by_cases none_left : queue.waiting = 0
  · cases cursor : queue.cursor <;> simp [none_left]
  · simp [none_left]

/-- The last place was taken. -/
theorem saturated_full {turn done : Turn Scan} {new : List TaskId} (advance : Advance turn done new)
    (capacity : turn.state.capacity = freeCapacity maxConcurrency turn.state.db.activeCount)
    (full : done.state.capacity = some 0) : Saturated maxConcurrency done.state.db := by
  rw [advance.capacity, capacity] at full
  cases maxConcurrency with
  | none => cases full
  | some limit =>
    have room := advance.room _ capacity
    have active := advance.active
    simp only [freeCapacity, Option.map_some, Option.some.injEq] at full
    exact .inl ⟨limit, rfl, by simp only [Int.ofNat_eq_natCast] at full room; omega⟩

/-- A call that returns without filling the places passes over a page, from the start of the queue
when nothing is left after the cursor. -/
theorem Completes.passes (completes : Completes maxConcurrency queue next) :
    Saturated maxConcurrency next.db ∨ ∃ limit new,
      (pageFloor maxConcurrency ≤ limit ∧ 1 ≤ limit ∧ limit ≤ taskPageSize) ∧
      Passes queue.db (if queue.waiting = 0 then none else queue.cursor) limit next new := by
  obtain ⟨now, monotonic, faults, done, isDone, returned, rfl⟩ := completes
  have call := schedule_call maxConcurrency now monotonic
    ⟨{ db := queue.db, cursor := queue.cursor }, faults, false⟩
  rw [isDone] at call
  cases call with
  | idle _ db started why =>
    obtain raised | ⟨_, full⟩ := why
    · simp [returned] at raised
    · refine .inl (.inl ?_)
      cases maxConcurrency with
      | none => cases full
      | some limit =>
        refine ⟨limit, rfl, ?_⟩
        simp only [freeCapacity, Option.map_some, Option.some.injEq, Int.ofNat_eq_natCast] at full
        rw [db]
        simp only
        omega
  | scanned ready page limit new fine going state places isLimit isPage swept =>
    rw [Turn.set_raised] at returned
    rw [Turn.set_state returned]
    simp only [Scan.saveCursor] at *
    have range : 1 ≤ limit ∧ limit ≤ taskPageSize := isLimit ▸ scanLimit_range _
    have advance := swept.advance
    by_cases full : (page.foldl (scanTask now monotonic) ready).state.capacity = some 0
    · exact .inl (saturated_full advance (by rw [state]) full)
    · have going' : (page.foldl (scanTask now monotonic) ready).state.scannedAll = true := by
        by_contra stopped
        obtain before | spent := swept.stopped (by simpa using stopped)
        · rw [state] at before
          cases before
        · exact full spent
      obtain ⟨_, settled, last⟩ := swept.settled ⟨returned, going', full⟩
      have isCursor := queuedPage_cursor queue range
      have samePage : page = queue.db.statePage [.queued] limit
          (if queue.waiting = 0 then none else queue.cursor) := by
        rw [isPage, ← isCursor, queuedPage_page]
      refine .inr ⟨limit, new, ⟨isLimit ▸ pageFloor_le _, range⟩, ?_, ?_, ?_, ?_⟩
      · simpa [state] using advance.briefs
      · intro id started
        rw [← samePage]
        exact List.mem_map.mp (swept.chosen.subset started)
      · intro task member brief stored named queued
        rw [← samePage] at member
        obtain ⟨key, own, held⟩ | gone := settled task member
        · obtain ⟨holder, isHolder, active, shares⟩ := (advance.tracks key).mp held
          refine ⟨holder, isHolder, active, key, ?_, shares⟩
          have keys : Listed (page.foldl (scanTask now monotonic) ready).state.db page :=
            advance.listed (by
              rw [state, isPage]
              exact listed_page (fun task member => (mem_queuedPage member).1))
          rw [keys task member brief stored named]
          exact own
        · exact absurd queued (gone brief stored named)
      · rw [← samePage, going', last, advance.cursor, state, ← isCursor]
        simp

end Steps

section Runs
variable {maxConcurrency : Option Int} {queue next : Queue} {moves : List Pass}
open Transition

theorem QueueStep.saturated {move : Pass} (step : QueueStep maxConcurrency queue move next)
    (saturated : Saturated maxConcurrency queue.db) : Saturated maxConcurrency next.db := by
  cases move with
  | tick => exact Completes.saturated step saturated
  | other => exact Calm.saturated step saturated

theorem saturated_run (run : Run (QueueStep maxConcurrency) queue moves next)
    (saturated : Saturated maxConcurrency queue.db) : Saturated maxConcurrency next.db :=
  run.invariant (P := fun q => Saturated maxConcurrency q.db)
    (fun saturated step => QueueStep.saturated step saturated) saturated

theorem visited_start (db : Db) : (Queue.mk db none).Visited :=
  fun _ _ _ seen => absurd trivial seen

theorem waiting_start (queue : Queue) (start : queue.cursor = none) :
    queue.waiting = queue.db.queuedCount := by
  simp [Queue.waiting, Db.queuedCount, start]

/-- Nothing is queued after the cursor, and everything up to it is blocked. -/
theorem saturated_end (visited : queue.Visited) (none_left : queue.waiting = 0) :
    Saturated maxConcurrency queue.db := by
  refine .inr (fun brief stored queued => visited brief stored queued (fun after => ?_))
  rw [Queue.waiting, List.countP_eq_zero] at none_left
  exact none_left brief stored (by simp [queued, after])

/-- The second pass: what lies before the cursor is known to be blocked. -/
theorem second_pass (run : Run (QueueStep maxConcurrency) queue moves next) (turns : Nat)
    (visited : queue.Visited) (left : queue.waiting ≤ turns * pageFloor maxConcurrency)
    (enough : turns ≤ moves.count .tick) : Saturated maxConcurrency next.db := by
  induction run generalizing turns with
  | nil queue =>
    have done : turns = 0 := by simpa using enough
    rw [done, Nat.zero_mul, Nat.le_zero] at left
    exact saturated_end visited left
  | @cons queue move middle moves last step run ih =>
    by_cases none_left : queue.waiting = 0
    · exact saturated_run run (QueueStep.saturated step (saturated_end visited none_left))
    cases move with
    | other =>
      refine ih turns (Calm.visited step visited) ?_ (by simpa using enough)
      rw [Calm.waiting step]
      exact left
    | tick =>
      obtain saturated | ⟨limit, new, ⟨floor, range⟩, passes⟩ := Completes.passes step
      · exact saturated_run run saturated
      rw [if_neg none_left] at passes
      by_cases short : (queue.db.statePage [.queued] limit queue.cursor).length < limit
      · exact saturated_run run (passes.short range short visited)
      · obtain ⟨count, seen⟩ := passes.full range short
        change middle.waiting + limit = queue.waiting at count
        refine ih (turns - 1) (seen visited) ?_ ?_
        · rw [Nat.sub_mul, Nat.one_mul]
          omega
        · rw [List.count_cons_self] at enough
          omega

theorem queuedCount_admitted {db : Db} {new : List TaskId}
    (briefs : next.db.briefs = db.briefs.map (Brief.start new)) :
    next.db.queuedCount ≤ db.queuedCount := by
  rw [Db.queuedCount, briefs, List.countP_map]
  refine List.countP_mono_left (fun brief _ queued => ?_)
  by_cases started : brief.id ∈ new
  · simp [Brief.start, started] at queued
  · simpa [Brief.start, started] using queued

theorem Calm.queuedCount (calm : Calm queue next) : next.db.queuedCount = queue.db.queuedCount := by
  have start : Calm { queue with cursor := none } { next with cursor := none } := ⟨rfl, calm.roles⟩
  simpa [waiting_start] using start.waiting

/-- The first pass: nothing is known about the tasks before the cursor. -/
theorem first_pass (run : Run (QueueStep maxConcurrency) queue moves next) (turns again : Nat)
    (left : queue.waiting ≤ turns * pageFloor maxConcurrency)
    (all : queue.db.queuedCount ≤ again * pageFloor maxConcurrency)
    (enough : turns + again ≤ moves.count .tick) : Saturated maxConcurrency next.db := by
  induction run generalizing turns again with
  | nil queue =>
    have done : again = 0 := by simp at enough; omega
    rw [done, Nat.zero_mul, Nat.le_zero, Db.queuedCount, List.countP_eq_zero] at all
    exact .inr (fun brief stored queued => absurd queued (by simpa using all brief stored))
  | @cons queue move middle moves last step run ih =>
    cases move with
    | other =>
      refine ih turns again ?_ ?_ (by simpa using enough)
      · rw [Calm.waiting step]
        exact left
      · rw [Calm.queuedCount step]
        exact all
    | tick =>
      rw [List.count_cons_self] at enough
      obtain saturated | ⟨limit, new, ⟨floor, range⟩, passes⟩ := Completes.passes step
      · exact saturated_run run saturated
      have fewer := queuedCount_admitted passes.briefs
      by_cases none_left : queue.waiting = 0
      · -- the scan has wrapped around: this turn already belongs to the second pass
        rw [if_pos none_left] at passes
        by_cases short : (queue.db.statePage [.queued] limit none).length < limit
        · exact saturated_run run (passes.short range short (visited_start _))
        · obtain ⟨count, seen⟩ := passes.full range short
          rw [waiting_start ⟨queue.db, none⟩ rfl] at count
          refine second_pass run (again - 1) (seen (visited_start _)) ?_ (by omega)
          simp only at count
          rw [Nat.sub_mul, Nat.one_mul]
          omega
      · rw [if_neg none_left] at passes
        by_cases short : (queue.db.statePage [.queued] limit queue.cursor).length < limit
        · have start : middle.cursor = none := by rw [passes.moved, if_pos short]
          refine second_pass run again ?_ ?_ ?_
          · intro brief _ _ seen
            rw [start] at seen
            exact absurd trivial seen
          · rw [waiting_start middle start]
            exact fewer.trans all
          · have some_turn : turns ≠ 0 := by
              rintro rfl
              simp at left
              exact none_left left
            omega
        · obtain ⟨count, _⟩ := passes.full range short
          change middle.waiting + limit = queue.waiting at count
          have some_turn : turns ≠ 0 := by
            rintro rfl
            simp at left
            exact none_left left
          refine ih (turns - 1) again ?_ (fewer.trans all) (by omega)
          rw [Nat.sub_mul, Nat.one_mul]
          omega

theorem le_pages (tasks : Nat) : tasks ≤ pages tasks (pageFloor maxConcurrency) *
    pageFloor maxConcurrency := by
  have positive : 0 < pageFloor maxConcurrency := by
    cases maxConcurrency <;> simp [pageFloor, taskPageSize]
  have exact_ := Nat.div_add_mod (tasks + (pageFloor maxConcurrency - 1)) (pageFloor maxConcurrency)
  have below := Nat.mod_lt (tasks + (pageFloor maxConcurrency - 1)) positive
  rw [pages, Nat.mul_comm]
  omega

theorem Queue.waiting_le (queue : Queue) : queue.waiting ≤ queue.db.queuedCount := by
  refine List.countP_mono_left (fun brief _ waiting => ?_)
  rw [Bool.and_eq_true] at waiting
  exact waiting.1

/-- Two passes over the queue and one turn fill the free places or leave every queued task blocked,
from any cursor. -/
theorem bounded_scan (run : Run (QueueStep maxConcurrency) queue moves next)
    (enough : 2 * pages queue.db.queuedCount (pageFloor maxConcurrency) + 1 ≤ moves.count .tick) :
    Saturated maxConcurrency next.db := by
  exact first_pass run _ _ (queue.waiting_le.trans (le_pages _)) (le_pages _) (by omega)

/-- The queue a returning call leaves. -/
def Queue.tick (maxConcurrency : Option Int) (now : String) (monotonic : Seconds)
    (queue : Queue) : Queue :=
  let done := schedule maxConcurrency now monotonic
    ⟨{ db := queue.db, cursor := queue.cursor }, none, false⟩
  ⟨done.state.db, done.state.cursor⟩

/-- Two queued tasks with one key. -/
def pairQueue : Queue :=
  let first := (Db.empty.createTask "1" "a" (.keyed ["k"])).getD .empty
  ⟨(first.createTask "2" "b" (.keyed ["k"])).getD first, none⟩

theorem bounded_scan_pair :
    Saturated (some 2) (((pairQueue.tick (some 2) "3" 0).tick (some 2) "4" 1).tick
    (some 2) "5" 2).db := by
  have first : Completes (some 2) pairQueue (pairQueue.tick (some 2) "3" 0) :=
    ⟨"3", 0, none, _, rfl, by decide, rfl⟩
  have second : Completes (some 2) (pairQueue.tick (some 2) "3" 0)
      ((pairQueue.tick (some 2) "3" 0).tick (some 2) "4" 1) :=
    ⟨"4", 1, none, _, rfl, by decide +kernel, rfl⟩
  have third : Completes (some 2) ((pairQueue.tick (some 2) "3" 0).tick (some 2) "4" 1)
      (((pairQueue.tick (some 2) "3" 0).tick (some 2) "4" 1).tick (some 2) "5" 2) :=
    ⟨"5", 2, none, _, rfl, by decide +kernel, rfl⟩
  have run : Run (QueueStep (some 2)) pairQueue [.tick, .tick, .tick] _ :=
    .cons first (.cons second (.cons third (.nil _)))
  exact bounded_scan run (by decide)

end Runs
end LocalFlow
