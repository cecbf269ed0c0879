import LocalFlow.Library.Related
import LocalFlow.Pagination
import LocalFlow.Streaming

/-! What a caller without credentials reads while `anonymous_access` is `summary`, over all routes
that read tasks, and which histories it cannot tell apart. -/
namespace LocalFlow

/-! ## The data of the events -/

/-- What `transition` allows in its `fields`. -/
def transitionColumns : List String :=
  ["started_at", "ended_at", "exit_code", "pid", "executor_ref", "interrupt_stage",
    "blocked_by_json", "log_size",
    "started_monotonic", "elapsed_seconds", "custom_json"]

/-- The places where an event is written. -/
inductive EventCall where
  | queued
  | batchQueued (batchId : String) (sequence : Nat)
  | batchCreated (batchId : String) (count : Nat)
  | moved (state : TaskState) (fields : Object)
      (allowed : ∀ field ∈ fields, field.1 ∈ transitionColumns)
  | blocked (blockers keys : List String)
  | hostRestarted (previousBootId bootId : String)
  | startError (error : String)
  | waitError (attempt : Nat) (error : String)
  | waitProbeError (attempt : Nat) (error : String)
  | waitRetry (attempt : Nat)
  | resultEvaluationError (error : String)
  | interruptAdvanced
  | stopActionError (stage error : String)
  | exitConfirmationError (attempt : Nat) (error : String)
  | forceCleanupRetry (attempt : Nat) (running : Bool)
  | timeAdjustment (requested actor : String) (returncode : Json) (stdout stderr : String)
      (before after : Json)
  | configDeleted (path : String) (affected : List String)
  | configChanged (path version : String) (affected : List String)
  | configInvalid (path version : String) (affected : List String) (error : String)
  | pluginsChanged (generation diagnostics : Json) (paths : List String)

namespace EventCall

def kind : EventCall → String
  | queued | batchQueued _ _ => "task.queued"
  | batchCreated _ _ => "batch.created"
  | moved state _ _ => lifecycleKind state
  | blocked _ _ => "task.blocked"
  | hostRestarted _ _ => "task.host_restarted"
  | startError _ => "task.start_error"
  | waitError _ _ => "task.wait_error"
  | waitProbeError _ _ => "task.wait_probe_error"
  | waitRetry _ => "task.wait_retry"
  | resultEvaluationError _ => "task.result_evaluation_error"
  | interruptAdvanced => "task.interrupt_advanced"
  | stopActionError _ _ => "task.stop_action_error"
  | exitConfirmationError _ _ => "task.exit_confirmation_error"
  | forceCleanupRetry _ _ => "task.force_cleanup_retry"
  | timeAdjustment _ _ _ _ _ _ _ => "system.time_adjustment"
  | configDeleted _ _ => "config.deleted"
  | configChanged _ _ _ => "config.changed"
  | configInvalid _ _ _ _ => "config.invalid"
  | pluginsChanged _ _ _ => "plugins.changed"

def texts (items : List String) : Json := .arr (items.map Json.str)

def data : EventCall → Object
  | queued => [("state", .str "queued")]
  | batchQueued batchId sequence =>
    [("state", .str "queued"), ("batch_id", .str batchId), ("sequence", .int sequence)]
  | batchCreated batchId count => [("batch_id", .str batchId), ("count", .int count)]
  | moved state fields _ => ("state", .str state.value) :: fields
  | blocked blockers keys => [("blocked_by", texts blockers), ("blocked_keys", texts keys)]
  | hostRestarted previous boot => [("previous_boot_id", .str previous), ("boot_id", .str boot)]
  | startError error | resultEvaluationError error => [("error", .str error)]
  | waitError attempt error | waitProbeError attempt error | exitConfirmationError attempt error =>
    [("attempt", .int attempt), ("error", .str error)]
  | waitRetry attempt => [("attempt", .int attempt), ("process_tree_running", .bool true)]
  | interruptAdvanced => []
  | stopActionError stage error => [("stage", .str stage), ("error", .str error)]
  | forceCleanupRetry attempt running =>
    [("attempt", .int attempt), ("process_tree_running", .bool running)]
  | timeAdjustment requested actor returncode stdout stderr before after =>
    [("requested", .str requested), ("actor", .str actor), ("returncode", returncode),
      ("stdout", .str stdout),
      ("stderr", .str stderr), ("before", before), ("after", after)]
  | configDeleted path affected => [("path", .str path), ("affected_paths", texts affected)]
  | configChanged path version affected =>
    [("path", .str path), ("version", .str version), ("affected_paths", texts affected)]
  | configInvalid path version affected error =>
    [("path", .str path), ("version", .str version), ("affected_paths", texts affected),
      ("error", .str error)]
  | pluginsChanged generation diagnostics paths =>
    [("generation", generation), ("diagnostics", diagnostics), ("paths", texts paths)]

end EventCall

/-- The database with the column `data_json` of its events. -/
structure Ledger where
  db : Db
  data : Nat → Object

namespace Ledger

def empty : Ledger := ⟨.empty, fun _ => []⟩

/-- A statement of the store, and what it writes into the data of an event. -/
structure Step (s t : Ledger) : Prop where
  edit : Edit (fun _ => True) s.db t.db
  kept : ∀ id < s.db.events.next, t.data id = s.data id
  written : ∀ event ∈ t.db.events.rows, s.db.events.next ≤ event.id →
    ∃ call : EventCall, event.kind = call.kind ∧ t.data event.id = call.data

/-- A history of submissions and of the activity of tasks ends here. -/
def Reached (s : Ledger) : Prop := Relation.ReflTransGen Step empty s

end Ledger

/-! ## The routes -/

inductive AnonymousAccess where
  | disabled | summary | readonly
  deriving DecidableEq

inductive Role where
  | admin | signedClient | readonly | summary
  deriving DecidableEq

/-- What authentication makes of a request: of its session, of its signature, and of the headers of
a signature. -/
structure Caller where
  admin : Bool
  signed : Bool
  signedAttempt : Bool

/-- No credentials that hold. -/
def Caller.Anonymous (caller : Caller) : Prop := caller.admin = false ∧ caller.signed = false

/-- `_summary`. -/
structure Summary where
  id : TaskId
  name : String
  labels : List String
  state : TaskState
  status : TaskStatus
  createdAt : String
  startedAt : Option String
  endedAt : Option String

def TaskRecord.summary (row : TaskRecord) : Summary :=
  ⟨row.id, row.name, row.labels, row.state, row.status, row.createdAt, row.startedAt, row.endedAt⟩

inductive TaskView where
  | summary (summary : Summary)
  | detail (detail : Json)

/-- One event of a stream. -/
structure EventFrame where
  id : Nat
  kind : String
  data : Object

inductive ReadAnswer where
  | problem (status : Nat) (detail : String)
  | closed (code : Nat)
  | tasks (items : List (TaskView × Bool)) (nextCursor : Option String)
  | task (view : TaskView)
  | batch (id template : String) (values : Object) (createdAt : String) (taskIds : List TaskId)
  | opened
  | ready (id : Nat)
  | events (frames : List EventFrame)
  | full (content : Json)

/-- The four routes over a log. -/
inductive LogRead where
  | bytes (offset limit : Int)
  | download
  | window (start stop columns : Nat) (direction : String) (hit : Option Nat)
  | search (query : String)

inductive ReadRoute where
  | listTasks (query : Query) (limit : Nat) (range : 1 ≤ limit ∧ limit ≤ 200) (cursor : Option String)
  | getTask (id : TaskId)
  | getBatch (id : String)
  | logs (id : TaskId) (read : LogRead)
  | templates
  | terminal (id : TaskId)
  | events (after : Option Nat) (lastEventId : Option String)
  | eventSocket (sameOrigin : Bool) (after : Option String)

/-- `can_read`. -/
def canRead (mode : AnonymousAccess) (caller : Caller) : Except ReadAnswer Role :=
  if caller.admin then .ok .admin
  else if caller.signed then .ok .signedClient
  else if caller.signedAttempt then .error (.problem 403 "invalid signed client request")
  else
    match mode with
    | .disabled => .error (.problem 403 "anonymous access disabled")
    | .summary => .ok .summary
    | .readonly => .ok .readonly

/-- `get_batch`; `none` is the `KeyError`. -/
def Db.getBatch (db : Db) (id : String) : Option ReadAnswer :=
  (db.batches.find? (fun batch => batch.id = id)).map (fun batch =>
    .batch batch.id batch.template batch.values batch.createdAt
      (((db.batchTasks.filter (fun row => row.batchId = id)).insertionSort
        (fun a b => a.sequence ≤ b.sequence)).map
        BatchTask.taskId))

section Routes
variable (detail : Ledger → TaskRecord → Json) (content : Ledger → ReadRoute → Json)

/-- `detail` is `_detail`. -/
def Role.view (role : Role) (s : Ledger) (row : TaskRecord) : TaskView :=
  if role = .summary then .summary row.summary else .detail (detail s row)

/-- `newly_completed`. -/
def Role.newlyCompleted (role : Role) (db : Db) (row : TaskRecord) : Bool :=
  row.endedAt.isSome && decide (role = .admin) &&
    !db.acknowledgements.any (fun seen => seen.taskId = row.id && seen.viewer = "admin")

/-- A route that answers once. `content` is what full read access gets of logs, templates and the
terminal. -/
def answer (mode : AnonymousAccess) (caller : Caller) (s : Ledger) (route : ReadRoute) : ReadAnswer :=
  match route with
  | .terminal _ =>
    if mode = .disabled ∧ caller.admin = false then .closed 4403
    else if mode = .summary ∧ caller.admin = false then .closed 4403
    else .full (content s route)
  | _ =>
    match canRead mode caller with
    | .error problem => problem
    | .ok role =>
      match route with
      | .listTasks query limit _ cursor =>
        match s.db.taskPage query limit cursor with
        | none => .problem 422 "invalid task cursor"
        | some page =>
          .tasks (page.items.map
            (fun row => (role.view detail s row, role.newlyCompleted s.db row))) page.nextCursor
      | .getTask id =>
        match s.db.getTask id with
        | none => .problem 404 "task not found"
        | some row => .task (role.view detail s row)
      | .getBatch id => (s.db.getBatch id).getD (.problem 404 "batch not found")
      | .logs _ _ =>
        if role = .summary then .problem 403 "logs require full read access"
          else .full (content s route)
      | .templates =>
        if role = .summary then .problem 403 "templates require full read access"
          else .full (content s route)
      | _ => .opened

/-- `safe_data` with the task of the event. -/
def frame (full : Bool) (s : Ledger) (event : EventRecord) : EventFrame where
  id := event.id
  kind := event.kind
  data :=
    let data := s.data event.id
    ("task_id", (event.taskId.map Json.str).getD .null) ::
      if full then data else [("state", (Json.get? data "state").getD .null)]

/-- The loop of a stream, a poll at each of these moments. -/
def polls (full : Bool) : Nat → List Ledger → List ReadAnswer
  | _, [] => []
  | cursor, s :: later =>
    let found := s.db.events.after cursor
    .events (found.map (frame full s)) ::
      polls full ((found.getLast?.map EventRecord.id).getD cursor) later

/-- The parameter `after` of the socket; `none` is the `ValueError`. -/
def socketCursor : Option String → Option (Option Nat)
  | none => some none
  | some text =>
    match intOf text with
    | none => none
    | some cursor => if cursor < 0 then none else some (some cursor.toNat)

/-- What a client gets of a route that it asks at each of these moments. A stream is opened at the
first one and polled at the others. -/
def respond (mode : AnonymousAccess) (caller : Caller) (route : ReadRoute) (moments : List Ledger) :
    List ReadAnswer :=
  let full := caller.admin || decide (mode = .readonly)
  match route, moments with
  | .events _ _, [] | .eventSocket _ _, [] => []
  | .events after lastEventId, s :: later =>
    match canRead mode caller with
    | .error problem => [problem]
    | .ok _ => .opened :: polls full (initialEventCursor s.db.events after lastEventId) later
  | .eventSocket sameOrigin after, s :: later =>
    if sameOrigin = false then [.closed 4403]
    else if caller.admin = false ∧ mode = .disabled then [.closed 4403]
    else
      match socketCursor after with
      | none => [.closed 4400]
      | some after =>
        let cursor := initialEventCursor s.db.events after none
        .ready cursor :: polls full cursor later
  | _, _ => moments.map (fun s => answer detail content mode caller s route)

end Routes

/-! ## What the data of an event says of the state -/

section Told
variable {s t : Ledger} {event : EventRecord}

/-- The state that a kind of event names. -/
def toldState (kind : String) : Option Json :=
  (TaskState.all.find? (fun state => kind = lifecycleKind state)).map (fun state => .str state.value)

theorem toldState_moved (state : TaskState) :
    toldState (lifecycleKind state) = some (.str state.value) := by
  cases state <;> rfl

/-- Whatever writes an event, its kind names the state that its data holds. -/
theorem EventCall.told (call : EventCall) : Json.get? call.data "state" = toldState call.kind := by
  cases call with
  | moved state fields allowed =>
    rw [EventCall.kind, toldState_moved]
    rfl
  | _ => rfl

/-- The data of every stored event says no more of a state than its kind. -/
def Ledger.Told (s : Ledger) : Prop :=
  ∀ event ∈ s.db.events.rows, Json.get? (s.data event.id) "state" = toldState event.kind

/-- A row after a statement was there before, or has an id that was not given out. -/
theorem stored_edit {accepts : TaskCreate → Prop} {db next : Db} (edit : Edit accepts db next)
    (member : event ∈ next.events.rows) : event ∈ db.events.rows ∨ db.events.next ≤ event.id := by
  obtain same | ⟨now, taskId, kind, same⟩ | ⟨drop, same⟩ := edit_events edit
  · rw [same] at member
    exact .inl member
  · rw [same] at member
    refine (List.mem_append.mp member).imp_right (fun new => ?_)
    rw [List.mem_singleton.mp new]
  · rw [same] at member
    exact .inl (List.mem_of_mem_filter member)

theorem told_step (told : s.Told) (step : s.Step t) : t.Told := by
  intro event member
  by_cases fresh : s.db.events.next ≤ event.id
  · obtain ⟨call, isKind, isData⟩ := step.written event member fresh
    rw [isKind, isData]
    exact call.told
  · have old := (stored_edit step.edit member).resolve_right fresh
    rw [step.kept event.id (Nat.lt_of_not_le fresh)]
    exact told event old

theorem told_reached (reached : s.Reached) : s.Told := by
  induction reached with
  | refl => exact fun _ never => nomatch never
  | tail _ step ih => exact told_step ih step

end Told

/-! ## Histories that look alike -/

def EventRecord.announced (event : EventRecord) : Nat × Option TaskId × String :=
  (event.id, event.taskId, event.kind)

def BatchTask.membership (row : BatchTask) : String × TaskId × Nat :=
  (row.batchId, row.taskId, row.sequence)

/-- The same summaries, the same members of the same batches and the same kinds of events. -/
structure Alike (s t : Ledger) : Prop where
  tasks : s.db.tasks.rows.map TaskRecord.summary = t.db.tasks.rows.map TaskRecord.summary
  batches : s.db.batches.map BatchRecord.id = t.db.batches.map BatchRecord.id
  members : s.db.batchTasks.map BatchTask.membership = t.db.batchTasks.map BatchTask.membership
  events : s.db.events.rows.map EventRecord.announced = t.db.events.rows.map EventRecord.announced

/-- What `get_batch` returns of a batch beside its members. -/
def BatchRecord.shown (batch : BatchRecord) : String × Object × String :=
  (batch.template, batch.values, batch.createdAt)

/-- Each batch has the same template, values and time. -/
def SameBatches (s t : Ledger) : Prop :=
  ∀ id, (s.db.batches.find? (fun batch => batch.id = id)).map BatchRecord.shown =
    (t.db.batches.find? (fun batch => batch.id = id)).map BatchRecord.shown

section Alike
variable {s t : Ledger} {a b : TaskRecord}

theorem selects_summary (query : Query) (same : a.summary = b.summary) :
    query.selects a = query.selects b := by
  simp only [TaskRecord.summary, Summary.mk.injEq] at same
  obtain ⟨id, name, labels, state, _, createdAt, startedAt, endedAt⟩ := same
  simp only [Query.selects, id, name, labels, state, createdAt, startedAt, endedAt]

theorem sortKey_summary (same : a.summary = b.summary) : a.sortKey = b.sortKey := by
  simp only [TaskRecord.summary, Summary.mk.injEq] at same
  rw [TaskRecord.sortKey, TaskRecord.sortKey, same.1, same.2.2.2.2.2.1]

theorem encodeCursor_summary (same : a.summary = b.summary) : encodeCursor a = encodeCursor b := by
  simp only [TaskRecord.summary, Summary.mk.injEq] at same
  rw [encodeCursor, encodeCursor, same.1, same.2.2.2.2.2.1]

theorem listTasks_alike (alike : Alike s t) (query : Query) :
    List.Forall₂ (fun a b => a.summary = b.summary) (s.db.listTasks query) (t.db.listTasks query) := by
  have chosen := Related.filter (Related.of_map alike.tasks)
    (fun a b same => selects_summary query same)
  unfold Db.listTasks
  apply List.forall₂_take
  split
  · refine Related.insertionSort (fun a b a' b' same same' => ?_) chosen
    rw [sortKey_summary same, sortKey_summary same']
  · refine Related.insertionSort (fun a b a' b' same same' => ?_) chosen
    rw [sortKey_summary same, sortKey_summary same']

/-- Two answers of `list_tasks` before its rows are projected. -/
inductive SamePage : Option TaskPage → Option TaskPage → Prop where
  | none : SamePage none none
  | some {first second : TaskPage} :
      List.Forall₂ (fun a b => a.summary = b.summary) first.items second.items →
      first.nextCursor = second.nextCursor → SamePage (some first) (some second)

theorem taskPage_alike (alike : Alike s t) (query : Query) (limit : Nat) (cursor : Option String) :
    SamePage (s.db.taskPage query limit cursor) (t.db.taskPage query limit cursor) := by
  unfold Db.taskPage
  by_cases range : 1 ≤ limit ∧ limit ≤ 200
  swap
  · simp only [if_neg range, Option.bind_eq_bind, Option.bind_none]
    exact .none
  simp only [if_pos range, Option.bind_eq_bind]
  cases decodeCursor cursor with
  | none => exact .none
  | some before =>
    simp only [Option.bind_some]
    have records := listTasks_alike alike
      { query with limit := limit + 1, before, after := none, ascending := false }
    have taken := List.forall₂_take limit records
    rw [← records.length_eq]
    split
    · obtain ⟨one, isOne⟩ : ∃ one, one = (List.take limit (s.db.listTasks
        { query with limit := limit + 1, before, after := none, ascending := false })).getLast? :=
          ⟨_, rfl⟩
      obtain ⟨other, isOther⟩ : ∃ other, other = (List.take limit (t.db.listTasks
        { query with limit := limit + 1, before, after := none, ascending := false })).getLast? :=
          ⟨_, rfl⟩
      have last := Related.getLast? taken
      rw [← isOne, ← isOther] at last ⊢
      cases last with
      | none => exact .some taken rfl
      | some same =>
        simp only [encodeCursor_summary same]
        cases encodeCursor _ with
        | none => exact .none
        | some text => exact .some taken rfl
    · exact .some taken rfl

theorem getTask_alike (alike : Alike s t) (id : TaskId) :
    Option.Rel (fun a b => a.summary = b.summary) (s.db.getTask id) (t.db.getTask id) := by
  refine Related.find? (Related.of_map alike.tasks) (fun a b same => ?_)
  simp only [TaskRecord.summary, Summary.mk.injEq] at same
  rw [same.1]

theorem after_alike (alike : Alike s t) (cursor : Nat) :
    List.Forall₂ (fun a b => a.announced = b.announced) (s.db.events.after cursor)
    (t.db.events.after cursor) := by
  apply List.forall₂_take
  refine Related.filter (Related.of_map alike.events) (fun a b same => ?_)
  rw [show a.id = b.id from congrArg Prod.fst same]

theorem latest_alike (alike : Alike s t) : s.db.events.latest = t.db.events.latest := by
  have ids : s.db.events.rows.map EventRecord.id = t.db.events.rows.map EventRecord.id :=
    Related.map_eq (Related.of_map alike.events) (fun _ _ _ _ same => congrArg Prod.fst same)
  rw [Events.latest, Events.latest, ids]

theorem initialEventCursor_alike (alike : Alike s t) (after : Option Nat) (header : Option String) :
    initialEventCursor s.db.events after header = initialEventCursor t.db.events after header := by
  unfold initialEventCursor
  rw [latest_alike alike]

theorem members_alike (alike : Alike s t) (id : String) :
    ((s.db.batchTasks.filter (fun row => row.batchId = id)).insertionSort
      (fun a b => a.sequence ≤ b.sequence)).map
        BatchTask.taskId =
      ((t.db.batchTasks.filter (fun row => row.batchId = id)).insertionSort
        (fun a b => a.sequence ≤ b.sequence)).map
        BatchTask.taskId := by
  have rows : ∀ a b : BatchTask, a.membership = b.membership →
      a.batchId = b.batchId ∧ a.taskId = b.taskId ∧ a.sequence = b.sequence := by
    intro a b same
    simpa [BatchTask.membership] using same
  have chosen := Related.filter (Related.of_map alike.members)
    (p := fun row => decide (row.batchId = id))
    (q := fun row => decide (row.batchId = id)) (fun a b same => by rw [(rows a b same).1])
  refine Related.map_eq (Related.insertionSort (fun a b a' b' same same' => ?_) chosen)
    (fun a _ b _ same => (rows a b same).2.1)
  rw [(rows a b same).2.2, (rows a' b' same').2.2]

/-- `get_batch` answers the same exactly when it returns the same. -/
theorem getBatch_alike (alike : Alike s t) (id : String) :
    (s.db.getBatch id).getD (.problem 404 "batch not found") = (t.db.getBatch id).getD
    (.problem 404 "batch not found") ↔
      (s.db.batches.find? (fun batch => batch.id = id)).map BatchRecord.shown =
        (t.db.batches.find? (fun batch => batch.id = id)).map BatchRecord.shown := by
  have found := Related.find? (Related.of_map alike.batches) (p := fun batch => decide (batch.id = id))
    (q := fun batch => decide (batch.id = id)) (fun a b same => by rw [same])
  unfold Db.getBatch
  rw [members_alike alike id]
  obtain ⟨one, isOne⟩ : ∃ one, one = s.db.batches.find? (fun batch => batch.id = id) := ⟨_, rfl⟩
  obtain ⟨other, isOther⟩ : ∃ other, other = t.db.batches.find? (fun batch => batch.id = id) := ⟨_, rfl⟩
  rw [← isOne, ← isOther] at found ⊢
  cases found with
  | none => exact iff_of_true rfl rfl
  | some same => simp [BatchRecord.shown, same]

end Alike

/-! ## What the routes disclose -/

section Disclosure
variable {detail : Ledger → TaskRecord → Json} {content : Ledger → ReadRoute → Json} {s t : Ledger}
  {caller : Caller}
  {route : ReadRoute} {ss ts : List Ledger}

theorem view_summary {a b : TaskRecord} (same : a.summary = b.summary) :
    Role.summary.view detail s a = Role.summary.view detail t b := by
  rw [Role.view, Role.view, if_pos rfl, if_pos rfl, same]

theorem canRead_anonymous (anonymous : caller.Anonymous) : canRead .summary caller =
    if caller.signedAttempt then .error (.problem 403 "invalid signed client request")
      else .ok .summary := by
  rw [canRead, anonymous.1, anonymous.2]
  rfl

/-- Only `get_batch` answers from more than what looks alike. -/
theorem answer_alike (anonymous : caller.Anonymous) (alike : Alike s t)
    (batches : ∀ id, route = .getBatch id →
      (s.db.batches.find? (fun batch => batch.id = id)).map BatchRecord.shown =
      (t.db.batches.find? (fun batch => batch.id = id)).map BatchRecord.shown) :
    answer detail content .summary caller s route = answer detail content .summary caller t route := by
  cases route with
  | terminal id =>
    have refused : ∀ u : Ledger,
      answer detail content .summary caller u (.terminal id) = .closed 4403 := by
      intro u
      rw [answer, if_neg (by simp), if_pos ⟨rfl, anonymous.1⟩]
    rw [refused, refused]
  | listTasks query limit range cursor =>
    simp only [answer, canRead_anonymous anonymous]
    cases caller.signedAttempt with
    | true => rfl
    | false =>
      have page := taskPage_alike alike query limit cursor
      obtain ⟨one, isOne⟩ : ∃ one, one = s.db.taskPage query limit cursor := ⟨_, rfl⟩
      obtain ⟨other, isOther⟩ : ∃ other, other = t.db.taskPage query limit cursor := ⟨_, rfl⟩
      simp only [Bool.false_eq_true, if_false]
      rw [← isOne, ← isOther] at page ⊢
      cases page with
      | none => rfl
      | some items cursor =>
        simp only [cursor]
        refine congrArg (fun items => ReadAnswer.tasks items _)
          (Related.map_eq items (fun a _ b _ same => ?_))
        rw [@view_summary detail s t a b same]
        simp [Role.newlyCompleted]
  | getTask id =>
    simp only [answer, canRead_anonymous anonymous]
    cases caller.signedAttempt with
    | true => rfl
    | false =>
      have found := getTask_alike alike id
      obtain ⟨one, isOne⟩ : ∃ one, one = s.db.getTask id := ⟨_, rfl⟩
      obtain ⟨other, isOther⟩ : ∃ other, other = t.db.getTask id := ⟨_, rfl⟩
      simp only [Bool.false_eq_true, if_false]
      rw [← isOne, ← isOther] at found ⊢
      cases found with
      | none => rfl
      | some same => exact congrArg ReadAnswer.task (view_summary same)
  | getBatch id =>
    simp only [answer, canRead_anonymous anonymous]
    cases caller.signedAttempt with
    | true => rfl
    | false => exact (getBatch_alike alike id).mpr (batches id rfl)
  | logs id read | templates =>
    simp only [answer, canRead_anonymous anonymous]
    cases caller.signedAttempt <;> rfl
  | events after header | eventSocket sameOrigin after => simp only [answer]

theorem frame_alike {a b : EventRecord} (same : a.announced = b.announced) (told : s.Told)
    (told' : t.Told)
    (stored : a ∈ s.db.events.rows) (stored' : b ∈ t.db.events.rows) :
    frame false s a = frame false t b := by
  simp only [EventRecord.announced, Prod.mk.injEq] at same
  obtain ⟨id, taskId, kind⟩ := same
  have state : Json.get? (s.data a.id) "state" = Json.get? (t.data b.id) "state" := by
    rw [told a stored, told' b stored', kind]
  simp only [frame, Bool.false_eq_true, if_false, state]
  rw [id, taskId, kind]

/-- The two streams of events stay together. -/
theorem polls_alike (alike : List.Forall₂ Alike ss ts) (told : ∀ s ∈ ss, s.Told)
    (told' : ∀ t ∈ ts, t.Told)
    (cursor : Nat) : polls false cursor ss = polls false cursor ts := by
  induction alike generalizing cursor with
  | nil => rfl
  | @cons s t ss ts first _ ih =>
    have found := after_alike first cursor
    have last : (s.db.events.after cursor).getLast?.map EventRecord.id =
        (t.db.events.after cursor).getLast?.map EventRecord.id := by
      have ends := Related.getLast? found
      obtain ⟨one, isOne⟩ : ∃ one, one = (s.db.events.after cursor).getLast? := ⟨_, rfl⟩
      obtain ⟨other, isOther⟩ : ∃ other, other = (t.db.events.after cursor).getLast? := ⟨_, rfl⟩
      rw [← isOne, ← isOther] at ends ⊢
      cases ends with
      | none => rfl
      | some same => exact congrArg some (congrArg Prod.fst same)
    have frames : (s.db.events.after cursor).map (frame false s) = (t.db.events.after cursor).map
      (frame false t) := by
      refine Related.map_eq found (fun a inside b inside' same => ?_)
      exact frame_alike same (told s List.mem_cons_self) (told' t List.mem_cons_self)
        (mem_after inside).1 (mem_after inside').1
    simp only [polls]
    rw [frames, last]
    rw [ih (fun s member => told s (List.mem_cons_of_mem _ member))
      (fun t member => told' t (List.mem_cons_of_mem _ member))]

/-- Histories that look alike and have the same batches get the same answers from every route. -/
theorem respond_alike (anonymous : caller.Anonymous) (alike : List.Forall₂ Alike ss ts)
    (told : ∀ s ∈ ss, s.Told) (told' : ∀ t ∈ ts, t.Told) (batches : List.Forall₂ SameBatches ss ts) :
    respond detail content .summary caller route ss =
      respond detail content .summary caller route ts := by
  have full : (caller.admin || decide (AnonymousAccess.summary = .readonly)) = false := by
    rw [anonymous.1]
    rfl
  have once : ss.map (fun s => answer detail content .summary caller s route) =
      ts.map (fun t => answer detail content .summary caller t route) := by
    have both := alike.mp (fun s t alike (same : SameBatches s t) => And.intro alike same) batches
    exact Related.map_eq both
      (fun s _ t _ same => answer_alike anonymous same.1 (fun id _ => same.2 id))
  cases route with
  | listTasks | getTask | getBatch | logs | templates | terminal =>
    simp only [respond]
    exact once
  | events after header =>
    cases alike with
    | nil => rfl
    | cons first later =>
      simp only [respond, full, canRead_anonymous anonymous, initialEventCursor_alike first]
      rw [polls_alike later (fun s member => told s (List.mem_cons_of_mem _ member))
        (fun t member => told' t (List.mem_cons_of_mem _ member))]
  | eventSocket sameOrigin after =>
    cases alike with
    | nil => rfl
    | cons first later =>
      simp only [respond, full, initialEventCursor_alike first]
      have together := fun cursor =>
        polls_alike later (fun s member => told s (List.mem_cons_of_mem _ member))
        (fun t member => told' t (List.mem_cons_of_mem _ member)) cursor
      simp only [together]

/-- The answers of `get_batch` give the batches away. -/
theorem batches_of_respond (alike : List.Forall₂ Alike ss ts)
    (same : ∀ id, respond detail content .summary ⟨false, false, false⟩ (.getBatch id) ss =
      respond detail content .summary ⟨false, false, false⟩ (.getBatch id) ts) :
      List.Forall₂ SameBatches ss ts := by
  have read : ∀ (u : Ledger) (id : String),
    answer detail content .summary ⟨false, false, false⟩ u (.getBatch id) =
      (u.db.getBatch id).getD (.problem 404 "batch not found") := fun _ _ => rfl
  induction alike with
  | nil => exact .nil
  | @cons s t ss ts first _ ih =>
    have parts := fun id => List.cons.inj (same id)
    refine .cons (fun id => ?_) (ih (fun id => (parts id).2))
    have here : answer detail content .summary ⟨false, false, false⟩ s (.getBatch id) =
        answer detail content .summary ⟨false, false, false⟩ t (.getBatch id) := (parts id).1
    rw [read, read] at here
    exact (getBatch_alike first id).mp here

end Disclosure

/-- Whatever else the tasks of two histories hold, the answers to a caller without credentials are
the same exactly when each batch has the same template, values and time in both: `get_batch` alone
returns them as they are stored. -/
theorem summary_discloses (detail : Ledger → TaskRecord → Json) (content : Ledger → ReadRoute → Json)
    {ss ts : List Ledger} (reached : ∀ s ∈ ss, s.Reached) (reached' : ∀ t ∈ ts, t.Reached)
    (alike : List.Forall₂ Alike ss ts) :
    (∀ caller : Caller, caller.Anonymous → ∀ route, respond detail content .summary caller route ss =
      respond detail content .summary caller route ts) ↔ List.Forall₂ SameBatches ss ts := by
  constructor
  · intro same
    exact batches_of_respond alike (fun id => same ⟨false, false, false⟩ ⟨rfl, rfl⟩ (.getBatch id))
  · intro batches caller anonymous route
    exact respond_alike anonymous alike (fun s member => told_reached (reached s member))
      (fun t member => told_reached (reached' t member)) batches

/-- A batch of one task, as `create_batch` stores it. -/
def batchLedger (command : String) (seed : Int) : Ledger where
  db :=
    let now := "2026-01-01T00:00:00+00:00"
    let batch : BatchRecord := ⟨"b", "simulation", [("seed", .int seed)], now, none⟩
    let draft := { TaskCreate.keyed [] with command := [command] }
    match ({ Db.empty with batches := [batch] } : Db).insertTask now now "t" draft with
    | some db => ({ db with batchTasks := [⟨"b", "t", 0⟩] } : Db).addEvent now none "batch.created"
    | none => .empty
  data
    | 1 => (EventCall.batchQueued "b" 0).data
    | 2 => (EventCall.batchCreated "b" 1).data
    | _ => []

theorem batchLedger_reached (command : String) (seed : Int) : (batchLedger command seed).Reached := by
  let now := "2026-01-01T00:00:00+00:00"
  let batch : BatchRecord := ⟨"b", "simulation", [("seed", .int seed)], now, none⟩
  let draft := { TaskCreate.keyed [] with command := [command] }
  let opened : Db := { Db.empty with batches := [batch] }
  let data := (batchLedger command seed).data
  have inserted : ∃ filled, opened.insertTask now now "t" draft = some filled ∧
      filled.events.rows = [⟨1, some "t", "task.queued", now⟩] ∧ filled.events.next = 2 ∧
        batchLedger command seed =
        ⟨({ filled with batchTasks := [⟨"b", "t", 0⟩] } : Db).addEvent now none "batch.created",
          data⟩ :=
    ⟨_, rfl, rfl, rfl, rfl⟩
  obtain ⟨filled, inserted, rows, next, same⟩ := inserted
  let joined : Db := { filled with batchTasks := [⟨"b", "t", 0⟩] }
  have opens : Ledger.Step .empty ⟨opened, data⟩ := by
    refine ⟨.tables [] [batch] [] [], fun id early => ?_, fun event never => nomatch never⟩
    obtain rfl : id = 0 := Nat.lt_one_iff.mp early
    rfl
  have fills : Ledger.Step ⟨opened, data⟩ ⟨filled, data⟩ := by
    refine ⟨.submit trivial rfl inserted, fun _ _ => rfl, fun event member _ => ?_⟩
    rw [rows] at member
    rw [List.mem_singleton.mp member]
    exact ⟨.batchQueued "b" 0, rfl, rfl⟩
  have joins : Ledger.Step ⟨filled, data⟩ ⟨joined, data⟩ := by
    refine ⟨.tables _ _ [⟨"b", "t", 0⟩] _, fun _ _ => rfl, fun event member later => ?_⟩
    exact absurd (filled.events.issued event member) (Nat.not_lt_of_le later)
  have announces : Ledger.Step ⟨joined, data⟩ ⟨joined.addEvent now none "batch.created", data⟩ := by
    refine ⟨.event rfl, fun _ _ => rfl, fun event member later => ?_⟩
    obtain old | new := List.mem_append.mp member
    · exact absurd (filled.events.issued event old) (Nat.not_lt_of_le later)
    · rw [List.mem_singleton.mp new]
      refine ⟨.batchCreated "b" 1, rfl, ?_⟩
      show data filled.events.next = _
      rw [next]
      rfl
  rw [same]
  exact .tail (.tail (.tail (.tail .refl opens) fills) joins) announces

theorem batchLedger_alike (command other : String) (seed seed' : Int) :
    Alike (batchLedger command seed) (batchLedger other seed') :=
  ⟨rfl, rfl, rfl, rfl⟩

/-- Two commands are not told apart. -/
theorem summary_discloses_nothing :
    respond (fun _ row => .arr (row.command.map Json.str)) (fun _ _ => .null) .summary
      ⟨false, false, false⟩
        (.getBatch "b") [batchLedger "a" 1] =
      respond (fun _ row => .arr (row.command.map Json.str)) (fun _ _ => .null) .summary
        ⟨false, false, false⟩
        (.getBatch "b") [batchLedger "b" 1] :=
  (summary_discloses _ _ (fun _ member => List.mem_singleton.mp member ▸ batchLedger_reached "a" 1)
    (fun _ member => List.mem_singleton.mp member ▸ batchLedger_reached "b" 1)
    (.cons (batchLedger_alike "a" "b" 1 1) .nil)).mpr (.cons (fun _ => rfl) .nil) _ ⟨rfl, rfl⟩ _

/-- Two seeds are. -/
theorem seed_disclosed : ¬ ∀ (detail : Ledger → TaskRecord → Json) (content : Ledger → ReadRoute → Json)
    (ss ts : List Ledger), (∀ s ∈ ss, s.Reached) → (∀ t ∈ ts, t.Reached) → List.Forall₂ Alike ss ts →
      ∀ caller : Caller, caller.Anonymous → ∀ route, respond detail content .summary caller route ss =
        respond detail content .summary caller route ts := by
  intro same
  have answers := same (fun _ _ => .null) (fun _ _ => .null) [batchLedger "a" 1] [batchLedger "a" 2]
    (fun _ member => List.mem_singleton.mp member ▸ batchLedger_reached "a" 1)
    (fun _ member => List.mem_singleton.mp member ▸ batchLedger_reached "a" 2)
    (.cons (batchLedger_alike "a" "a" 1 2) .nil) ⟨false, false, false⟩ ⟨rfl, rfl⟩ (.getBatch "b")
  have shown : ReadAnswer.batch "b" "simulation" [("seed", .int 1)] "2026-01-01T00:00:00+00:00" ["t"] =
      ReadAnswer.batch "b" "simulation" [("seed", .int 2)] "2026-01-01T00:00:00+00:00" ["t"] :=
        (List.cons.inj answers).1
  simp at shown

end LocalFlow
