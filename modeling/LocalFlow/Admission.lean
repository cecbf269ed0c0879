import LocalFlow.Scheduler

/-! What one call of `_schedule` does to the database: every task the scan reaches is skipped,
with at most its blocking note changed, or admitted while no active task holds one of its keys. -/
namespace LocalFlow
open Faults

/-- A row up to its blocking note. -/
def TaskRecord.unblocked (row : TaskRecord) : TaskRecord :=
  { row with blockedBy := [], blockedKeys := [] }

/-- Only blocking notes and other events were written. -/
structure Noted (db next : Db) : Prop where
  updates : Updates db next
  journal : next.journal = db.journal
  rows : next.tasks.rows.map TaskRecord.unblocked = db.tasks.rows.map TaskRecord.unblocked

namespace Noted
variable {db next last : Db}

theorem refl (db : Db) : Noted db db := ⟨.refl, rfl, rfl⟩

theorem trans (first : Noted db next) (second : Noted next last) : Noted db last :=
  ⟨first.updates.trans second.updates, second.journal.trans first.journal,
    second.rows.trans first.rows⟩

theorem getTask (noted : Noted db next) (id : TaskId) :
    (next.getTask id).map TaskRecord.unblocked = (db.getTask id).map TaskRecord.unblocked := by
  have find : ∀ rows : List TaskRecord,
      (rows.find? (fun row => row.id = id)).map TaskRecord.unblocked =
      (rows.map TaskRecord.unblocked).find? (fun row => row.id = id) := by
    intro rows
    rw [List.find?_map]
    rfl
  simp only [Db.getTask, Tasks.get?, find, noted.rows]

/-- Each row keeps its state, its keys and its place in the queue. -/
theorem row (noted : Noted db next) {id : TaskId} {row : TaskRecord}
    (found : next.getTask id = some row) :
    ∃ old, db.getTask id = some old ∧ old.unblocked = row.unblocked := by
  have same := noted.getTask id
  rw [found, Option.map_some] at same
  exact Option.map_eq_some_iff.mp same.symm

end Noted

theorem noted_noteBlocked (db : Db) (id : TaskId) (blockers keys : List String) :
    Noted db (db.noteBlocked id blockers keys) where
  updates := .single (.note (frame_note blockers keys))
  journal := rfl
  rows := by
    simp only [Db.noteBlocked, Tasks.update, List.map_map]
    refine List.map_congr_left (fun row _ => ?_)
    simp only [Function.comp_apply]
    split
    · split <;> rfl
    · rfl

theorem noted_addEvent (db : Db) (now : String) (id : Option TaskId) {kind : String}
    (quiet : isLifecycle kind = false) : Noted db (db.addEvent now id kind) :=
  ⟨.single (.event quiet), rfl, rfl⟩

/-- A scan turn that only wrote blocking notes. -/
structure Wrote (turn next : Turn Scan) (db : Db) : Prop where
  noted : Noted turn.state.db db
  state : next.state = { turn.state with db }
  stays : turn.raised = true → next = turn

variable {now : String} {monotonic : Seconds}

theorem call_wrote (turn : Turn Scan) (f : Db → Db) (noted : Noted turn.state.db (f turn.state.db)) :
    ∃ db, Wrote turn (turn.call (fun scan => { scan with db := f scan.db })) db := by
  cases ready : turn.raised with
  | true => exact ⟨turn.state.db, .refl _, by rw [Turn.call_of_raised ready],
      fun _ => Turn.call_of_raised ready⟩
  | false =>
    obtain ⟨_, same⟩ | ⟨_, done⟩ :=
      Turn.call_cases (f := fun scan : Scan => { scan with db := f scan.db }) ready
    · exact ⟨turn.state.db, .refl _, same, fun raised => by simp [ready] at raised⟩
    · exact ⟨_, noted, done, fun raised => by simp [ready] at raised⟩

theorem setBlockedBy_wrote (now : String) (id : TaskId) (blockers keys : List String)
    (turn : Turn Scan) :
    ∃ db, Wrote turn (setBlockedBy now id blockers keys turn) db := by
  unfold setBlockedBy
  split
  · obtain ⟨db, first⟩ := call_wrote turn (fun db => db.noteBlocked id blockers keys)
      (noted_noteBlocked _ _ _ _)
    obtain ⟨last, second⟩ := call_wrote
      (turn.call (fun scan => { scan with db := scan.db.noteBlocked id blockers keys }))
      (fun db => db.addEvent now (some id) "task.blocked") (noted_addEvent _ _ _ rfl)
    have noted := second.noted
    rw [first.state] at noted
    refine ⟨last, first.noted.trans noted, ?_, fun raised => ?_⟩
    · rw [second.state, first.state]
    · have same := first.stays raised
      rw [same] at second ⊢
      exact second.stays raised
  · exact call_wrote turn (fun db => db) (.refl _)

/-- The turn has not raised and has not run out of places. -/
def Roomy (turn : Turn Scan) : Prop :=
  turn.raised = false ∧ turn.state.scannedAll = true ∧ turn.state.capacity ≠ some 0

/-- What the scan does at one task of its page. -/
inductive Visit (now : String) (monotonic : Seconds) (task : TaskRecord) (turn : Turn Scan) :
    Turn Scan → Prop where
  | stopped (stopped : turn.raised = true ∨
      turn.state.scannedAll = false) : Visit now monotonic task turn turn
  | full (ready : turn.raised = false) (capacity : turn.state.capacity = some 0) :
      Visit now monotonic task turn { turn with state := { turn.state with scannedAll := false } }
  | skipped (next : Turn Scan) (db : Db) (room : Roomy turn) (noted : Noted turn.state.db db)
      (state : next.state = { turn.state with last := some task, db })
      (why : next.raised = true ∨ turn.state.shared task ≠ [] ∨
        ∀ row, db.getTask task.id = some row → row.state ≠ .queued) :
      Visit now monotonic task turn next
  | admitted (next : Turn Scan) (db : Db) (row : TaskRecord) (status : TaskStatus)
      (room : Roomy turn) (noted : Noted turn.state.db db)
      (clear : turn.state.shared task = []) (found : db.getTask task.id = some row)
      (queued : row.state = .queued)
      (state : next.state = { ({ turn.state with last := some task }).occupy task with
        db := db.move now task.id .starting (startFields now monotonic) status })
      (fine : next.raised = false) : Visit now monotonic task turn next

theorem admitTask_visit {turn start : Turn Scan} {task : TaskRecord} {db : Db}
    (room : Roomy turn) (clear : turn.state.shared task = []) (noted : Noted turn.state.db db)
    (state : start.state = { turn.state with last := some task, db }) :
    Visit now monotonic task turn (admitTask now monotonic start task) := by
  have here : start.state.db = db := by rw [state]
  unfold admitTask
  rw [here]
  obtain ⟨raised, _⟩ | ⟨refused, unexpected⟩ | ⟨row, status, found, expects, moved⟩ :=
    db.transition_cases now task.id [.queued] .starting (startFields now monotonic) none
  · rw [raised]
    exact .skipped _ db room noted (by simpa using state) (.inl rfl)
  · rw [refused]
    refine .skipped _ db room noted ?_ (.inr (.inr (by simpa using unexpected)))
    rw [Turn.call_same]
    exact state
  · rw [moved]
    dsimp only
    cases before : start.raised with
    | true =>
      rw [Turn.call_of_raised before]
      exact .skipped _ db room noted state (.inl before)
    | false =>
      obtain ⟨raised, same⟩ | ⟨fine, done⟩ := Turn.call_cases
        (f := fun scan => { scan.occupy task with
          db := db.move now task.id .starting (startFields now monotonic) status }) before
      · exact .skipped _ db room noted (same.trans state) (.inl raised)
      · refine .admitted _ db row status room noted clear found (by simpa using expects) ?_ fine
        rw [done, state]
        rfl

theorem scanTask_visit (now : String) (monotonic : Seconds) (turn : Turn Scan) (task : TaskRecord) :
    Visit now monotonic task turn (scanTask now monotonic turn task) := by
  unfold scanTask
  split
  · rename_i stopped
    exact .stopped (by simpa using stopped)
  rename_i going
  have going : turn.raised = false ∧ turn.state.scannedAll = true := by simpa using going
  have ready := going.1
  split
  · rename_i capacity
    have full : Visit now monotonic task turn _ := .full ready capacity
    simpa [Turn.set, ready] using full
  rename_i capacity
  have room : Roomy turn := ⟨ready, going.2, capacity⟩
  have visited : turn.set (fun scan => { scan with last := some task }) =
      { turn with state := { turn.state with last := some task } } := by
    simp [Turn.set, ready]
  simp only [visited]
  have keys : Scan.shared { turn.state with last := some task } task = turn.state.shared task := rfl
  rw [keys]
  split
  · rename_i clear
    obtain ⟨db, wrote⟩ := setBlockedBy_wrote now task.id [] []
      { turn with state := { turn.state with last := some task } }
    exact admitTask_visit room clear wrote.noted wrote.state
  · rename_i held
    obtain ⟨db, wrote⟩ := setBlockedBy_wrote now task.id
      (Scan.blockers { turn.state with last := some task } task) (turn.state.shared task)
      { turn with state := { turn.state with last := some task } }
    exact .skipped _ db room wrote.noted wrote.state (.inr (.inl held))

/-- What the scheduler looks at in a row. -/
structure Brief where
  id : TaskId
  createdAt : String
  mutexKeys : List String
  state : TaskState
  deriving DecidableEq

def TaskRecord.brief (row : TaskRecord) : Brief :=
  ⟨row.id, row.createdAt, row.mutexKeys, row.state⟩

def Db.briefs (db : Db) : List Brief := db.tasks.rows.map TaskRecord.brief

/-- The ids in `new` become starting. -/
def Brief.start (new : List TaskId) (brief : Brief) : Brief :=
  if brief.id ∈ new then { brief with state := .starting } else brief

def Db.activeCount (db : Db) : Nat := db.briefs.countP (fun brief => brief.state.active)

theorem Noted.briefs {db next : Db} (noted : Noted db next) : next.briefs = db.briefs := by
  have through : ∀ rows : List TaskRecord, rows.map TaskRecord.brief =
      (rows.map TaskRecord.unblocked).map TaskRecord.brief := by
    intro rows
    rw [List.map_map]
    rfl
  unfold Db.briefs
  rw [through, noted.rows, ← through]

theorem mem_briefs {db : Db} {brief : Brief} :
    brief ∈ db.briefs ↔ ∃ row, db.getTask brief.id = some row ∧ row.brief = brief := by
  constructor
  · intro member
    obtain ⟨row, stored, rfl⟩ := List.mem_map.mp member
    exact ⟨row, Tasks.get?_of_mem stored, rfl⟩
  · rintro ⟨row, found, rfl⟩
    exact List.mem_map_of_mem (Tasks.get?_mem found).1

/-- Two rows of a table with one id are the same row. -/
theorem briefs_unique {db : Db} {a b : Brief} (ha : a ∈ db.briefs) (hb : b ∈ db.briefs)
    (same : a.id = b.id) : a = b := by
  obtain ⟨rowA, foundA, rfl⟩ := mem_briefs.mp ha
  obtain ⟨rowB, foundB, rfl⟩ := mem_briefs.mp hb
  rw [same, foundB] at foundA
  rw [Option.some.inj foundA]

theorem briefs_move {db : Db} (id : TaskId) (fields : List Field) (status : TaskStatus) :
    (db.move now id .starting fields status).briefs = db.briefs.map (Brief.start [id]) := by
  simp only [Db.briefs, Db.move, Db.addEvent, Tasks.update, List.map_map]
  refine List.map_congr_left (fun row _ => ?_)
  by_cases same : row.id = id
  · simp [TaskRecord.brief, Brief.start, same]
  · simp [TaskRecord.brief, Brief.start, same]

/-- Admitting one queued task adds one active task. -/
theorem countP_admitted {briefs : List Brief} {id : TaskId} (unique : (briefs.map Brief.id).Nodup)
    (queued : ∃ brief ∈ briefs, brief.id = id ∧ brief.state.active = false) :
    (briefs.map (Brief.start [id])).countP (fun brief => brief.state.active) =
      briefs.countP (fun brief => brief.state.active) + 1 := by
  induction briefs with
  | nil => simp at queued
  | cons head rest ih =>
    rw [List.map_cons, List.nodup_cons] at unique
    rw [List.map_cons, List.countP_cons, List.countP_cons]
    by_cases same : head.id = id
    · have others : rest.map (Brief.start [id]) = rest := by
        refine (List.map_congr_left (fun brief member => ?_)).trans (List.map_id rest)
        have apart : brief.id ≠ id :=
          fun equal => unique.1 ((same.trans equal.symm) ▸ List.mem_map_of_mem member)
        simp [Brief.start, apart]
      have idle : head.state.active = false := by
        obtain ⟨brief, member, named, idle⟩ := queued
        obtain rfl | later := List.mem_cons.mp member
        · exact idle
        · exact absurd (List.mem_map_of_mem later)
            (fun listed => unique.1 ((same.trans named.symm) ▸ listed))
      have moved : (Brief.start [id] head).state.active = true := by
        simp only [Brief.start, same, List.mem_singleton, if_true]
        rfl
      simp [others, moved, idle]
    · have kept : Brief.start [id] head = head := by simp [Brief.start, same]
      have later : ∃ brief ∈ rest, brief.id = id ∧ brief.state.active = false := by
        obtain ⟨brief, member, named, idle⟩ := queued
        obtain rfl | later := List.mem_cons.mp member
        · exact absurd named same
        · exact ⟨brief, later, named, idle⟩
      rw [kept, ih unique.2 later]
      omega

theorem briefs_ids (db : Db) : (db.briefs.map Brief.id).Nodup := by
  have same : db.briefs.map Brief.id = db.tasks.rows.map TaskRecord.id := by
    unfold Db.briefs
    rw [List.map_map]
    rfl
  exact same ▸ db.tasks.primaryKey

/-- The holders are exactly the keys of the active tasks. -/
def Scan.Tracks (scan : Scan) : Prop :=
  ∀ key, key ∈ scan.holders.map Prod.fst ↔
    ∃ brief ∈ scan.db.briefs, brief.state.active = true ∧ key ∈ brief.mutexKeys

/-- A task the scan is done with: it shares a key with a holder or is no longer queued. -/
def Scan.Settled (scan : Scan) (task : TaskRecord) : Prop :=
  (∃ key ∈ task.mutexKeys, key ∈ scan.holders.map Prod.fst) ∨
  ∀ brief ∈ scan.db.briefs, brief.id = task.id → brief.state ≠ .queued

/-- The tasks of a page, as they are stored when the scan begins. -/
def Listed (db : Db) (page : List TaskRecord) : Prop :=
  ∀ task ∈ page, ∀ brief ∈ db.briefs, brief.id = task.id → brief.mutexKeys = task.mutexKeys

theorem Scan.mem_shared {scan : Scan} {task : TaskRecord} {key : String} :
    key ∈ scan.shared task ↔ key ∈ task.mutexKeys ∧ key ∈ scan.holders.map Prod.fst := by
  simp [shared]

/-- What part of a scan does: it admits the tasks in `new`, in this order, and nothing else. -/
structure Advance (turn next : Turn Scan) (new : List TaskId) : Prop where
  updates : Updates turn.state.db next.state.db
  tracks : next.state.Tracks
  started : next.state.started = turn.state.started ++ new
  journal : next.state.db.journal = turn.state.db.journal ++
    new.map (fun id => (id, TaskState.starting))
  briefs : next.state.db.briefs = turn.state.db.briefs.map (Brief.start new)
  active : next.state.db.activeCount = turn.state.db.activeCount + new.length
  capacity : next.state.capacity = turn.state.capacity.map (fun n => n - new.length)
  room : ∀ n, turn.state.capacity = some n → new.length ≤ n
  wasQueued : ∀ id ∈ new, ∃ brief ∈ turn.state.db.briefs, brief.id = id ∧ brief.state = .queued
  others : ∀ id, id ∉ new → (next.state.db.getTask id).map TaskRecord.unblocked =
    (turn.state.db.getTask id).map TaskRecord.unblocked
  holders : ∀ key ∈ turn.state.holders.map Prod.fst, key ∈ next.state.holders.map Prod.fst
  cursor : next.state.cursor = turn.state.cursor

theorem Brief.start_nil : Brief.start [] = fun brief => brief := by
  funext brief
  simp [Brief.start]

theorem Brief.start_append (first second : List TaskId) :
    Brief.start second ∘ Brief.start first = Brief.start (first ++ second) := by
  funext brief
  by_cases a : brief.id ∈ first <;> by_cases b : brief.id ∈ second <;> simp [Brief.start, a, b]

namespace Advance
variable {turn next last : Turn Scan}

theorem refl (tracks : turn.state.Tracks) : Advance turn turn [] where
  updates := .refl
  tracks := tracks
  started := by simp
  journal := by simp
  briefs := by simp [Brief.start_nil]
  active := by simp
  capacity := by simp
  room := by simp
  wasQueued := by simp
  others _ _ := rfl
  holders _ member := member
  cursor := rfl

theorem trans (first : Advance turn next new) (second : Advance next last more) :
    Advance turn last (new ++ more) where
  updates := first.updates.trans second.updates
  tracks := second.tracks
  started := by rw [second.started, first.started, List.append_assoc]
  journal := by rw [second.journal, first.journal, List.map_append, List.append_assoc]
  briefs := by rw [second.briefs, first.briefs, List.map_map, Brief.start_append]
  active := by rw [second.active, first.active, List.length_append]; omega
  capacity := by
    rw [second.capacity, first.capacity, Option.map_map, List.length_append]
    congr 1
    funext n
    simp only [Function.comp_apply]
    omega
  room n capacity := by
    have rest := second.room (n - new.length) (by rw [first.capacity, capacity]; rfl)
    have here := first.room n capacity
    rw [List.length_append]
    omega
  wasQueued id member := by
    obtain early | late := List.mem_append.mp member
    · exact first.wasQueued id early
    · obtain ⟨brief, listed, named, queued⟩ := second.wasQueued id late
      rw [first.briefs, List.mem_map] at listed
      obtain ⟨old, stored, rfl⟩ := listed
      unfold Brief.start at named queued
      split at queued
      · cases queued
      · rename_i other
        simp only [other, if_false] at named
        exact ⟨old, stored, named, queued⟩
  others id apart := by
    rw [List.mem_append, not_or] at apart
    exact (second.others id apart.2).trans (first.others id apart.1)
  holders key member := second.holders key (first.holders key member)
  cursor := second.cursor.trans first.cursor

/-- A settled task stays settled. -/
theorem settled (advance : Advance turn next new) {task : TaskRecord}
    (settled : turn.state.Settled task) : next.state.Settled task := by
  obtain ⟨key, own, held⟩ | gone := settled
  · exact .inl ⟨key, own, advance.holders key held⟩
  · refine .inr (fun brief member named => ?_)
    rw [advance.briefs, List.mem_map] at member
    obtain ⟨old, stored, rfl⟩ := member
    unfold Brief.start at named ⊢
    split
    · simp
    · rename_i other
      simp only [other, if_false] at named
      exact gone old stored named

theorem listed (advance : Advance turn next new) {page : List TaskRecord}
    (listed : Listed turn.state.db page) : Listed next.state.db page := by
  intro task member brief stored named
  rw [advance.briefs, List.mem_map] at stored
  obtain ⟨old, stored, rfl⟩ := stored
  have keys := listed task member old stored
  unfold Brief.start at named ⊢
  split at named
  · rename_i chosen
    simp only [chosen, if_true]
    exact keys named
  · rename_i other
    simp only [other, if_false]
    exact keys named

end Advance

theorem Scan.Tracks.congr {scan next : Scan} (tracks : scan.Tracks)
    (briefs : next.db.briefs = scan.db.briefs) (holders : next.holders = scan.holders) :
    next.Tracks := by
  intro key
  rw [briefs, holders]
  exact tracks key

/-- No active task holds a key of a task that shares none with the holders. -/
theorem Scan.Tracks.free {scan : Scan} (tracks : scan.Tracks) {db : Db} {row task : TaskRecord}
    (noted : Noted scan.db db) (clear : scan.shared task = [])
    (keys : row.mutexKeys = task.mutexKeys) : db.Free row := by
  intro other holder found active key own held
  have shared : key ∈ scan.shared task := by
    rw [mem_shared, tracks key]
    refine ⟨keys ▸ own, holder.brief, ?_, active, held⟩
    rw [← noted.briefs]
    exact List.mem_map_of_mem (Tasks.get?_mem found).1
  rw [clear] at shared
  cases shared

theorem stamps_start (now : String) (monotonic : Seconds) :
    Stamps .starting (startFields now monotonic) :=
  ⟨fun ended => absurd ended (by decide), fun _ _ => rfl, fun _ _ => rfl, fun _ _ => rfl⟩

theorem Scan.Tracks.start {scan next : Scan} (tracks : scan.Tracks) {task : TaskRecord}
    {brief : Brief} (stored : brief ∈ scan.db.briefs) (named : brief.id = task.id)
    (keys : brief.mutexKeys = task.mutexKeys) (queued : brief.state = .queued)
    (briefs : next.db.briefs = scan.db.briefs.map (Brief.start [task.id]))
    (holders : next.holders = scan.holders ++ task.mutexKeys.map (fun key => (key, task.id))) :
    next.Tracks := by
  intro key
  have added : key ∈ next.holders.map Prod.fst ↔
      key ∈ scan.holders.map Prod.fst ∨ key ∈ task.mutexKeys := by
    rw [holders]
    simp
  rw [added, tracks key, briefs]
  constructor
  · rintro (⟨holder, listed, active, own⟩ | own)
    · have apart : holder.id ≠ task.id := by
        intro same
        have twin := briefs_unique listed stored (same.trans named.symm)
        rw [twin, queued] at active
        cases active
      exact ⟨holder, List.mem_map.mpr ⟨holder, listed, by simp [Brief.start, apart]⟩, active, own⟩
    · refine ⟨Brief.start [task.id] brief, List.mem_map_of_mem stored, ?_, ?_⟩
      · simp only [Brief.start, named, List.mem_singleton, if_true]
        rfl
      · simp only [Brief.start, named, List.mem_singleton, if_true]
        exact keys ▸ own
  · rintro ⟨moved, listed, active, own⟩
    obtain ⟨old, member, rfl⟩ := List.mem_map.mp listed
    unfold Brief.start at active own
    split at own
    · rename_i chosen
      have twin := briefs_unique member stored ((List.mem_singleton.mp chosen).trans named.symm)
      exact .inr (keys ▸ twin ▸ own)
    · rename_i other
      simp only [other, if_false] at active
      exact .inl ⟨old, member, active, own⟩

/-- One visit admits its task or nothing, and a visit that leaves room settles its task. -/
theorem Visit.advance {turn next : Turn Scan} {task : TaskRecord}
    (visit : Visit now monotonic task turn next) (tracks : turn.state.Tracks)
    (listed : Listed turn.state.db [task]) : ∃ new, Advance turn next new ∧
      (new = [] ∨ new = [task.id] ∧ Roomy turn ∧ turn.state.shared task = []) ∧
      (Roomy next → Roomy turn ∧ next.state.Settled task ∧ next.state.last = some task) ∧
      (next.state.scannedAll = false →
        turn.state.scannedAll = false ∨ next.state.capacity = some 0) := by
  cases visit with
  | stopped stopped =>
    refine ⟨[], .refl tracks, .inl rfl, fun room => ?_, .inl⟩
    simp [room.1, room.2.1] at stopped
  | full ready capacity =>
    refine ⟨[], ?_, .inl rfl, fun room => absurd room.2.1 (by simp), fun _ => .inr capacity⟩
    exact { Advance.refl tracks with tracks }
  | skipped _ db room noted state why =>
    have briefs : next.state.db.briefs = turn.state.db.briefs := by
      rw [state]
      exact noted.briefs
    refine ⟨[], ?_, .inl rfl, fun roomy => ⟨room, ?_, by rw [state]⟩, fun stopped => .inl ?_⟩
    · exact {
        updates := by rw [state]; exact noted.updates
        tracks := tracks.congr briefs (by rw [state])
        started := by simp [state]
        journal := by simp [state, noted.journal]
        briefs := by simp [briefs, Brief.start_nil]
        active := by simp [Db.activeCount, briefs]
        capacity := by simp [state]
        room := by simp
        wasQueued := by simp
        others := fun id _ => by rw [state]; exact noted.getTask id
        holders := fun key member => by rw [state]; exact member
        cursor := by rw [state] }
    · obtain raised | held | gone := why
      · simp [roomy.1] at raised
      · obtain ⟨key, member⟩ := List.exists_mem_of_ne_nil _ held
        rw [Scan.mem_shared] at member
        exact .inl ⟨key, member.1, by rw [state]; exact member.2⟩
      · refine .inr (fun brief member named => ?_)
        rw [state] at member
        obtain ⟨row, found, rfl⟩ := mem_briefs.mp member
        exact gone row (named ▸ found)
    · rwa [state] at stopped
  | admitted _ db row status room noted clear found queued state fine =>
    have stored : row.brief ∈ turn.state.db.briefs := by
      rw [← noted.briefs]
      exact List.mem_map_of_mem (Tasks.get?_mem found).1
    have named : row.brief.id = task.id := (Tasks.get?_mem found).2
    have keys : row.mutexKeys = task.mutexKeys := listed task (by simp) row.brief stored named
    have briefs : next.state.db.briefs = turn.state.db.briefs.map (Brief.start [task.id]) := by
      rw [state, ← noted.briefs]
      exact briefs_move task.id _ _
    have holders : next.state.holders =
        turn.state.holders ++ task.mutexKeys.map (fun key => (key, task.id)) := by
      rw [state]
      rfl
    refine ⟨[task.id], ?_, .inr ⟨rfl, room, clear⟩, fun _ => ⟨room, ?_, by rw [state]; rfl⟩,
      fun stopped => .inl ?_⟩
    · exact {
        updates := by
          rw [state]
          refine noted.updates.tail (.move status found (by rw [queued]; rfl)
            (stamps_start now monotonic) (fun _ => ?_))
          exact tracks.free noted clear keys
        tracks := tracks.start stored named keys queued briefs holders
        started := by rw [state]; rfl
        journal := by rw [state, ← noted.journal]; rfl
        briefs
        active := by
          rw [Db.activeCount, briefs, countP_admitted (briefs_ids _)
            ⟨row.brief, stored, named, by rw [show row.brief.state = row.state from rfl, queued]; rfl⟩]
          rfl
        capacity := by rw [state]; rfl
        room := fun n places => by
          have some_place : n ≠ 0 := fun zero => room.2.2 (zero ▸ places)
          simp only [List.length_singleton]
          omega
        wasQueued := fun id member =>
          ⟨row.brief, stored, named.trans (List.mem_singleton.mp member).symm, queued⟩
        others := fun id apart => by
          rw [state, ← noted.getTask id]
          simp only [Db.getTask_move, if_neg (fun same => apart (List.mem_singleton.mpr same))]
        holders := fun key member => by
          rw [holders, List.map_append]
          exact List.mem_append_left _ member
        cursor := by rw [state]; rfl }
    · refine .inr (fun brief member same => ?_)
      rw [briefs, List.mem_map] at member
      obtain ⟨old, _, rfl⟩ := member
      unfold Brief.start at same ⊢
      split
      · simp
      · rename_i other
        simp only [other, if_false] at same
        exact absurd (List.mem_singleton.mpr same) other
    · rwa [state] at stopped

/-- A scan of a page. When a task is admitted the scan is done with the tasks listed before it, and
the task shares no key with a holder. -/
structure Swept (turn : Turn Scan) (page : List TaskRecord) (now : String) (monotonic : Seconds)
    (new : List TaskId) : Prop where
  advance : Advance turn (page.foldl (scanTask now monotonic) turn) new
  chosen : new.Sublist (page.map TaskRecord.id)
  settled : Roomy (page.foldl (scanTask now monotonic) turn) → Roomy turn ∧
    (∀ task ∈ page, (page.foldl (scanTask now monotonic) turn).state.Settled task) ∧
    (page.foldl (scanTask now monotonic) turn).state.last =
      page.getLast?.or turn.state.last
  stopped : (page.foldl (scanTask now monotonic) turn).state.scannedAll = false →
    turn.state.scannedAll = false ∨
    (page.foldl (scanTask now monotonic) turn).state.capacity = some 0
  order : ∀ before id after, new = before ++ id :: after → ∃ front task back,
    page = front ++ task :: back ∧ task.id = id ∧
    Advance turn (front.foldl (scanTask now monotonic) turn) before ∧
    (∀ other ∈ front, (front.foldl (scanTask now monotonic) turn).state.Settled other) ∧
    (front.foldl (scanTask now monotonic) turn).state.shared task = []

theorem swept (now : String) (monotonic : Seconds) (turn : Turn Scan) (page : List TaskRecord)
    (tracks : turn.state.Tracks) (listed : Listed turn.state.db page) :
    ∃ new, Swept turn page now monotonic new := by
  -- the page is visited from the front, so the induction peels its last task
  induction page using List.reverseRecOn with
  | nil =>
    exact ⟨[], .refl tracks, .refl _, fun room => ⟨room, by simp, rfl⟩, .inl, by simp⟩
  | append_singleton front task ih =>
    obtain ⟨old, earlier⟩ := ih (fun other member => listed other (List.mem_append_left _ member))
    have visit := scanTask_visit now monotonic (front.foldl (scanTask now monotonic) turn) task
    have here : Listed (front.foldl (scanTask now monotonic) turn).state.db [task] :=
      earlier.advance.listed (fun other member => listed other (List.mem_append_right _ member))
    obtain ⟨new, advance, one, room, stopped⟩ := visit.advance earlier.advance.tracks here
    have whole : (front ++ [task]).foldl (scanTask now monotonic) turn =
        scanTask now monotonic (front.foldl (scanTask now monotonic) turn) task := by simp
    rw [← whole] at advance room stopped
    refine ⟨old ++ new, earlier.advance.trans advance, ?_, ?_, ?_, ?_⟩
    · rw [List.map_append]
      refine earlier.chosen.append ?_
      obtain rfl | ⟨rfl, -⟩ := one
      · exact List.nil_sublist _
      · exact .refl _
    · intro roomy
      obtain ⟨before, done, last⟩ := room roomy
      obtain ⟨first, all, _⟩ := earlier.settled before
      refine ⟨first, fun other member => ?_, by rw [last]; simp⟩
      obtain early | rfl := List.mem_append.mp member |>.imp_right List.mem_singleton.mp
      · exact advance.settled (all other early)
      · exact done
    · intro now_stopped
      obtain before | full := stopped now_stopped
      · refine (earlier.stopped before).imp_right (fun full => ?_)
        rw [advance.capacity, full]
        simp
      · exact .inr full
    · intro before id after split
      obtain rfl | ⟨rfl, roomy, clear⟩ := one
      · rw [List.append_nil] at split
        obtain ⟨q1, b, q2, rfl, named, rest⟩ := earlier.order before id after split
        exact ⟨q1, b, q2 ++ [task], by simp, named, rest⟩
      · rcases List.eq_nil_or_concat after with rfl | ⟨initial, final, rfl⟩
        · obtain ⟨same, last⟩ := List.append_inj' split rfl
          rw [List.cons.injEq] at last
          subst same
          exact ⟨front, task, [], rfl, last.1, earlier.advance, (earlier.settled roomy).2.1, clear⟩
        · rw [List.concat_eq_append, ← List.cons_append, ← List.append_assoc] at split
          obtain ⟨same, _⟩ := List.append_inj' split rfl
          obtain ⟨q1, b, q2, rfl, named, rest⟩ := earlier.order before id initial same
          exact ⟨q1, b, q2 ++ [task], by simp, named, rest⟩

theorem mem_queuedPage {db : Db} {limit : Nat} {cursor : Option SortKey} {row : TaskRecord}
    (member : row ∈ (queuedPage db limit cursor).2) :
    db.getTask row.id = some row ∧ row.state = .queued := by
  unfold queuedPage at member
  dsimp only at member
  split at member
  all_goals
    obtain ⟨stored, chosen⟩ := Db.mem_statePage (by simp) member
    exact ⟨stored, by simpa using chosen⟩

theorem listed_page {db : Db} {page : List TaskRecord}
    (stored : ∀ task ∈ page, db.getTask task.id = some task) : Listed db page := by
  intro task member brief listed named
  have twin := briefs_unique listed (mem_briefs.mpr ⟨task, stored task member, rfl⟩) named
  rw [twin]
  rfl

theorem activeCount_eq (db : Db) : db.activeCount = (db.allTasks activeStates).length := by
  rw [Db.allTasks_eq db (by simp [activeStates]), (Keyset.ordered_perm _).length_eq,
    Db.activeCount, Db.briefs, List.countP_map, List.countP_eq_length_filter, Db.inStates]
  congr 1
  refine List.filter_congr (fun row _ => ?_)
  rw [Bool.eq_iff_iff]
  simp [TaskRecord.brief]

theorem tracks_holdersOf (scan : Scan)
    (holders : scan.holders = holdersOf (scan.db.allTasks activeStates)) : scan.Tracks := by
  intro key
  rw [holders]
  constructor
  · intro member
    obtain ⟨⟨_, owner⟩, listed, rfl⟩ := List.mem_map.mp member
    obtain ⟨row, holding, entry⟩ := List.mem_flatMap.mp listed
    obtain ⟨own, isOwn, same⟩ := List.mem_map.mp entry
    cases same
    rw [Db.mem_allTasks _ (by simp [activeStates]), mem_activeStates] at holding
    exact ⟨row.brief, List.mem_map_of_mem holding.1, holding.2, isOwn⟩
  · rintro ⟨brief, listed, active, own⟩
    obtain ⟨row, stored, rfl⟩ := List.mem_map.mp listed
    refine List.mem_map.mpr ⟨(key, row.id), List.mem_flatMap.mpr ⟨row, ?_, ?_⟩, rfl⟩
    · rw [Db.mem_allTasks _ (by simp [activeStates]), mem_activeStates]
      exact ⟨stored, active⟩
    · exact List.mem_map.mpr ⟨key, own, rfl⟩

theorem foldl_raised {turn : Turn Scan} (raised : turn.raised = true) (page : List TaskRecord) :
    page.foldl (scanTask now monotonic) turn = turn := by
  induction page with
  | nil => rfl
  | cons task rest ih =>
    have still : scanTask now monotonic turn task = turn := by simp [scanTask, raised]
    rw [List.foldl_cons, still, ih]

/-- The two ways a call of `_schedule` goes: it ends before its scan, or it scans one page from a
counted state. -/
inductive Call (maxConcurrency : Option Int) (now : String) (monotonic : Seconds)
    (turn : Turn Scan) : Turn Scan → Prop where
  | idle (next : Turn Scan) (db : next.state.db = turn.state.db)
      (started : next.state.started = turn.state.started)
      (why : next.raised = true ∨ next.state.cursor = turn.state.cursor ∧
        freeCapacity maxConcurrency turn.state.db.activeCount = some 0) :
      Call maxConcurrency now monotonic turn next
  | scanned (ready : Turn Scan) (page : List TaskRecord) (limit : Nat) (new : List TaskId)
      (fine : turn.raised = false) (going : ready.raised = false)
      (state : ready.state = { turn.state with
        holders := holdersOf (turn.state.db.allTasks activeStates)
        capacity := freeCapacity maxConcurrency turn.state.db.activeCount
        cursor := (queuedPage turn.state.db limit turn.state.cursor).1 })
      (places : freeCapacity maxConcurrency turn.state.db.activeCount ≠ some 0)
      (isLimit : limit = scanLimit (freeCapacity maxConcurrency turn.state.db.activeCount))
      (isPage : page = (queuedPage turn.state.db limit turn.state.cursor).2)
      (swept : Swept ready page now monotonic new) : Call maxConcurrency now monotonic turn
        ((page.foldl (scanTask now monotonic) ready).set
          (fun scan => scan.saveCursor page.length limit))

theorem schedule_call (maxConcurrency : Option Int) (now : String) (monotonic : Seconds)
    (turn : Turn Scan) :
    Call maxConcurrency now monotonic turn (schedule maxConcurrency now monotonic turn) := by
  unfold schedule
  simp only [← activeCount_eq]
  generalize countedIs : turn.call _ = counted
  have counted_same : counted.state.db = turn.state.db ∧
      counted.state.started = turn.state.started ∧ counted.state.cursor = turn.state.cursor := by
    rw [← countedIs]
    exact Turn.call_relates _ _ (R := fun s t : Scan => t.db = s.db ∧ t.started = s.started ∧
      t.cursor = s.cursor) (fun _ => ⟨rfl, rfl, rfl⟩) ⟨rfl, rfl, rfl⟩
  obtain ⟨sameDb, sameStarted, sameCursor⟩ := counted_same
  split
  · rename_i full
    exact .idle _ sameDb sameStarted (.inr ⟨sameCursor, full⟩)
  rename_i places
  rw [sameDb, sameCursor]
  generalize pageIs : queuedPage turn.state.db
    (scanLimit (freeCapacity maxConcurrency turn.state.db.activeCount)) turn.state.cursor = page
  generalize readyIs : (if page.1 = turn.state.cursor then
    counted.call (fun scan => { scan with cursor := page.1 }) else
    (counted.call (fun scan => { scan with cursor := page.1 })).call (fun scan => scan)) = ready
  have ready_same : ready.state.db = turn.state.db ∧ ready.state.started = turn.state.started := by
    have paged := Turn.call_relates counted (fun scan => { scan with cursor := page.1 })
      (R := fun s t : Scan => t.db = s.db ∧ t.started = s.started)
      (fun _ => ⟨rfl, rfl⟩) ⟨rfl, rfl⟩
    rw [← readyIs]
    split
    · exact ⟨paged.1.trans sameDb, paged.2.trans sameStarted⟩
    · rw [Turn.call_same]
      exact ⟨paged.1.trans sameDb, paged.2.trans sameStarted⟩
  cases going : ready.raised with
  | true =>
    rw [foldl_raised going]
    refine .idle _ ?_ ?_ (.inl (by simp [going]))
    · simp [Turn.set, going, ready_same.1]
    · simp [Turn.set, going, ready_same.2]
  | false =>
    have done : turn.raised = false ∧ ready.state = { turn.state with
        holders := holdersOf (turn.state.db.allTasks activeStates)
        capacity := freeCapacity maxConcurrency turn.state.db.activeCount, cursor := page.1 } := by
      have first : (counted.call (fun scan => { scan with cursor := page.1 })).raised = false ∧
          ready.state = (counted.call (fun scan => { scan with cursor := page.1 })).state := by
        rw [← readyIs] at going ⊢
        split at going
        · rename_i same
          simp only [same, if_true] at going ⊢
          exact ⟨going, trivial⟩
        · rename_i other
          simp only [other, if_false, Turn.call_same] at going ⊢
          exact ⟨(Turn.call_done going).1, trivial⟩
      obtain ⟨fineCounted, paged⟩ := Turn.call_done first.1
      rw [← countedIs] at fineCounted paged
      obtain ⟨fine, isCounted⟩ := Turn.call_done fineCounted
      refine ⟨fine, ?_⟩
      rw [first.2, ← countedIs, paged, isCounted]
    obtain ⟨new, swept⟩ := swept now monotonic ready page.2
      (tracks_holdersOf _ (by rw [done.2])) (by
        rw [ready_same.1]
        exact listed_page (fun task member => (mem_queuedPage (pageIs ▸ member)).1))
    exact .scanned ready page.2 _ new done.1 going (by rw [done.2, pageIs]) places rfl
      (by rw [pageIs]) swept

/-- The tasks a whole call admits. -/
structure Admits (turn next : Turn Scan) (new : List TaskId) : Prop where
  updates : Updates turn.state.db next.state.db
  started : next.state.started = turn.state.started ++ new
  journal : next.state.db.journal = turn.state.db.journal ++
    new.map (fun id => (id, TaskState.starting))
  briefs : next.state.db.briefs = turn.state.db.briefs.map (Brief.start new)
  active : next.state.db.activeCount = turn.state.db.activeCount + new.length
  wasQueued : ∀ id ∈ new, ∃ brief ∈ turn.state.db.briefs, brief.id = id ∧ brief.state = .queued
  others : ∀ id, id ∉ new → (next.state.db.getTask id).map TaskRecord.unblocked =
    (turn.state.db.getTask id).map TaskRecord.unblocked

theorem save_state (turn : Turn Scan) (length limit : Nat) :
    (turn.set (fun scan => scan.saveCursor length limit)).state.db = turn.state.db ∧
    (turn.set (fun scan => scan.saveCursor length limit)).state.started = turn.state.started :=
  Turn.set_relates _ _ (R := fun s t : Scan => t.db = s.db ∧ t.started = s.started)
    (fun _ => ⟨rfl, rfl⟩) ⟨rfl, rfl⟩

theorem Call.admits {maxConcurrency : Option Int} {turn next : Turn Scan}
    (call : Call maxConcurrency now monotonic turn next) : ∃ new, Admits turn next new ∧
      ∀ places, freeCapacity maxConcurrency turn.state.db.activeCount = some places →
        new.length ≤ places := by
  cases call with
  | idle _ db started why =>
    refine ⟨[], ?_, by simp⟩
    exact {
      updates := by rw [db]
      started := by simp [started]
      journal := by simp [db]
      briefs := by simp [db, Brief.start_nil]
      active := by simp [db]
      wasQueued := by simp
      others := by simp [db] }
  | scanned ready page limit new fine going state places isLimit isPage swept =>
    obtain ⟨sameDb, sameStarted⟩ := save_state (page.foldl (scanTask now monotonic) ready)
      page.length limit
    have advance := swept.advance
    refine ⟨new, ?_, fun places isPlaces => advance.room places (by rw [state, isPlaces])⟩
    exact {
      updates := by rw [sameDb]; simpa [state] using advance.updates
      started := by rw [sameStarted]; simpa [state] using advance.started
      journal := by rw [sameDb]; simpa [state] using advance.journal
      briefs := by rw [sameDb]; simpa [state] using advance.briefs
      active := by rw [sameDb]; simpa [state] using advance.active
      wasQueued := by simpa [state] using advance.wasQueued
      others := by rw [sameDb]; simpa [state] using advance.others }

theorem schedule_admits (maxConcurrency : Option Int) (now : String) (monotonic : Seconds)
    (turn : Turn Scan) : ∃ new, Admits turn (schedule maxConcurrency now monotonic turn) new :=
  (schedule_call maxConcurrency now monotonic turn).admits.imp (fun _ => And.left)

/-- A call never admits beyond the limit. -/
theorem schedule_capacity (limit : Int) (now : String) (monotonic : Seconds) (turn : Turn Scan) :
    ((schedule (some limit) now monotonic turn).state.db.activeCount : Int) ≤
      max limit turn.state.db.activeCount := by
  obtain ⟨new, admits, room⟩ := (schedule_call (some limit) now monotonic turn).admits
  have fits := room _ rfl
  rw [admits.active]
  have bound : (new.length : Int) ≤ max (limit - turn.state.db.activeCount) 0 := by
    rw [← Int.toNat_eq_max]
    exact_mod_cast fits
  push_cast
  omega

end LocalFlow
