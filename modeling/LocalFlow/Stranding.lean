import LocalFlow.Evaluating

/-! Whether the evaluation of a result lets its task end: what an evaluator can answer with texts
and data that the store cannot take, and the row that `_wait` and `recover` leave for each answer.
-/
namespace LocalFlow
open Transition

/-- What `evaluate_result` of a plugin does, as an `Answer` but for the texts: a label that holds a
lone surrogate is `none`, and so is the text of an `Exception` that holds one or cannot be formed. -/
inductive RawAnswer where
  | key (key : String)
  | fields (status : Json) (custom : CustomAnswer) (label : Option Json)
  | other | exits
  | raised (error : Option String)

structure RawPlugin where
  digest : String
  evaluator : Option (TaskRecord → RawAnswer)

abbrev RawPlugins := List (String × RawPlugin)

/-- Data that comes with a label that cannot be written. It may as well be data that cannot be. -/
def CustomAnswer.unwritten : CustomAnswer → CustomAnswer
  | other => .other
  | _ => .object none

/-- What the store and the handler of `_evaluate_result` see of an answer. A status whose label
cannot be written is written as little as one whose data cannot be, and the handler raises again
where it cannot form or store the text. -/
def RawAnswer.seen : RawAnswer → Answer
  | key name => .key name
  | fields status custom (some label) => .fields status custom label
  | fields status custom none => .fields status custom.unwritten .null
  | other => .other
  | exits => .exits
  | raised (some error) => .raised error
  | raised none => .exits

def RawPlugin.seen (plugin : RawPlugin) : LoadedPlugin :=
  ⟨plugin.digest, plugin.evaluator.map (fun evaluator task => (evaluator task).seen)⟩

def RawPlugins.seen (plugins : RawPlugins) : Plugins :=
  plugins.map (fun entry => (entry.1, entry.2.seen))

/-- The call of `_evaluate_result` to the registry, which it leaves out for a task that was asked to
stop. -/
def Plugins.judgement (plugins : Plugins) (task : TaskRecord) (code : Int) : Option Evaluation :=
  if task.interruptStage.isSome then some .nothing else plugins.evaluation task code

/-- `_wait` from `_evaluate_result` on. -/
def Slot.waitEnds (slot : Slot) (moment : Moment) (id : TaskId) (plugins : Plugins)
    (task : TaskRecord) (code : Int) : Slot :=
  match plugins.judgement task code with
  | none => slot.withWaiter none
  | some evaluation => slot.waitEvaluated moment id task code (evaluateResult true task code evaluation)

/-- `recover` from `_evaluate_result` on. -/
def System.recoverEnds (config : Config) (s : System) (recovery : Recovery) (plugins : Plugins)
    (task : TaskRecord)
    (code : Int) : System :=
  match plugins.judgement task code with
  | none => s.crash config
  | some evaluation =>
    s.recoverEvaluated config recovery task code (evaluateResult true task code evaluation)

/-- The judgement is the evaluation of the step in which a controller resumes. -/
theorem waitEnds_step {slot : Slot} {moment : Moment} {id : TaskId} {plugins : Plugins}
    {task : TaskRecord} {code : Int}
    {config : Config} {evaluation : Evaluation} (configured : config.hasEvaluator = true)
    (judged : plugins.judgement task code = some evaluation) :
    slot.waitStep config moment id (some (.evaluating task code)) (.waitEvaluated evaluation) =
      some (slot.waitEnds moment id plugins task code) := by
  unfold Slot.waitStep Slot.waitEnds
  rw [judged, configured]

theorem recoverEnds_step {config : Config} {s : System} {recovery : Recovery} {plugins : Plugins}
    {task : TaskRecord}
    {code : Int} {evaluation : Evaluation} (configured : config.hasEvaluator = true)
    (judged : plugins.judgement task code = some evaluation)
    (point : recovery.point = .evaluating task code) :
    s.recoverStep config recovery (.evaluated evaluation) =
      some (s.recoverEnds config recovery plugins task code) := by
  unfold System.recoverStep System.recoverEnds
  rw [judged, configured, point]

/-! ## Verdicts that can be written -/

section Verdicts
variable {config : Config} {s : System} {recovery : Recovery} {moment : Moment}
  {task row : TaskRecord} {code : Int}
variable {verdict : Verdict}

/-- The row of a task has ended with an exit code. -/
def EndedWith (row : Option TaskRecord) (code : Int) : Prop :=
  ∃ new, row = some new ∧ new.state.terminal = true ∧ new.exitCode = some code

/-- The status that is stored with the end of a task: that of the evaluator, or what the snapshot
gives. -/
def endStatus (task row : TaskRecord) (code : Int) (override : Option TaskStatus) : Option TaskStatus :=
  override <|> displayStatus row.pluginSnapshot (Slot.resultState task code)
    (some code) row.interruptStage

/-- A verdict whose data can be encoded, and that comes with a status. -/
def Verdict.ends (verdict : Verdict) (task row : TaskRecord) (code : Int) : Prop :=
  verdict.custom.isSome = true ∧ (endStatus task row code verdict.statusOverride).isSome = true

theorem not_endedWith (live : row.state.active = true) : ¬ EndedWith (some row) code := by
  rintro ⟨new, same, ended, _⟩
  cases same
  rw [TaskState.active_not_terminal live] at ended
  cases ended

variable {db : Db} {now : String} {expected : List TaskState} {bytes : Nat}
  {seconds : Option Seconds} {custom : Object}
variable {override : Option TaskStatus}

theorem transition_hidden (found : db.getTask task.id = some row) (expects : row.state ∈ expected)
    (hidden : endStatus task row code override = none) :
    db.transition now task.id expected (Slot.resultState task code)
    (endFields now code bytes seconds custom) override =
      (db, .raised) := by
  have some_expected : expected ≠ [] := List.ne_nil_of_mem expects
  unfold Db.transition
  rw [if_neg some_expected, found]
  unfold endStatus at hidden
  dsimp only [TaskRecord.assign, endFields, List.foldl, Field.assign]
  rw [hidden]

theorem transition_shown {status : TaskStatus} (found : db.getTask task.id = some row)
    (expects : row.state ∈ expected)
    (shown : endStatus task row code override = some status) :
    db.transition now task.id expected (Slot.resultState task code)
    (endFields now code bytes seconds custom) override =
      (db.move now task.id (Slot.resultState task code)
        (endFields now code bytes seconds custom) status, .committed) := by
  have some_expected : expected ≠ [] := List.ne_nil_of_mem expects
  unfold Db.transition
  rw [if_neg some_expected, found]
  unfold endStatus at shown
  dsimp only [TaskRecord.assign, endFields, List.foldl, Field.assign]
  rw [shown]
  exact if_pos expects

theorem endedWith_moved {status : TaskStatus} (found : db.getTask task.id = some row) :
    EndedWith ((db.move now task.id (Slot.resultState task code)
      (endFields now code bytes seconds custom) status).getTask task.id)
      code := by
  rw [Db.getTask_move, if_pos rfl, found]
  exact ⟨_, rfl, resultState_terminal task code, rfl⟩

variable (found : s.db.getTask task.id = some row) (live : row.state.active = true)
include found live

/-- `_wait` ends the task if and only if the verdict can be written. -/
theorem waitEvaluated_ends :
    EndedWith (((s.slot task.id).waitEvaluated moment task.id task code verdict).db.getTask task.id)
    code ↔
    verdict.ends task row code := by
  unfold Slot.waitEvaluated Verdict.ends
  generalize isNoted : (if verdict.failed = true then _ else s.slot task.id : Slot) = noted
  have stored : noted.db.getTask task.id = some row := by
    rw [← found, ← isNoted]
    split <;> rfl
  cases verdict.custom with
  | none =>
    refine iff_of_false ?_ (fun ends => absurd ends.1 Bool.false_ne_true)
    change ¬ EndedWith (noted.db.getTask task.id) code
    rw [stored]
    exact not_endedWith live
  | some custom =>
    have expects := wait_expects row.state live
    change EndedWith ((noted.db.transition moment.now task.id _ (Slot.resultState task code)
      (endFields moment.now code moment.logSize (elapsed moment task) custom)
        verdict.statusOverride).1.getTask task.id) code ↔ _
    cases status : endStatus task row code verdict.statusOverride with
    | none =>
      rw [transition_hidden stored expects status, stored]
      exact iff_of_false (not_endedWith live) (fun ends => absurd ends.2 Bool.false_ne_true)
    | some status' =>
      rw [transition_shown stored expects status]
      exact iff_of_true (endedWith_moved stored) ⟨rfl, rfl⟩

omit found live in
/-- Recovering a task leaves it as its transition does. -/
theorem settleRecovered_getTask {recovery : Recovery} {id other : TaskId} {state : TaskState}
    {fields : List Field}
    {override : Option TaskStatus} {extra : Option String} :
    (s.settleRecovered config recovery id state fields override extra).db.getTask other =
      (s.db.transition s.wall id liveStates state fields override).1.getTask other := by
  unfold System.settleRecovered
  split
  · next raised =>
    rw [raised]
    rfl
  · next settled =>
    rw [settled]
    cases extra <;> rfl

/-- `recover` does likewise. -/
theorem recoverEvaluated_ends :
    EndedWith ((s.recoverEvaluated config recovery task code verdict).db.getTask task.id) code ↔
    verdict.ends task row code := by
  unfold System.recoverEvaluated Verdict.ends
  generalize isNoted : (if verdict.failed = true then _ else s : System) = noted
  have stored : noted.db.getTask task.id = some row := by
    rw [← found, ← isNoted]
    split <;> rfl
  have wall : noted.wall = s.wall := by
    rw [← isNoted]
    split <;> rfl
  cases verdict.custom with
  | none =>
    refine iff_of_false ?_ (fun ends => absurd ends.1 Bool.false_ne_true)
    change ¬ EndedWith (noted.db.getTask task.id) code
    rw [stored]
    exact not_endedWith live
  | some custom =>
    have expects := mem_liveStates.mpr live
    dsimp only
    rw [settleRecovered_getTask, wall]
    change EndedWith ((noted.db.transition s.wall task.id _ (Slot.resultState task code)
      (endFields s.wall code (s.moment task.id).logSize (elapsed (s.moment task.id) task) custom)
        verdict.statusOverride).1.getTask
        task.id) code ↔ _
    cases status : endStatus task row code verdict.statusOverride with
    | none =>
      rw [transition_hidden stored expects status, stored]
      exact iff_of_false (not_endedWith live) (fun ends => absurd ends.2 Bool.false_ne_true)
    | some status' =>
      rw [transition_shown stored expects status]
      exact iff_of_true (endedWith_moved stored) ⟨rfl, rfl⟩

end Verdicts

/-! ## Answers that can be written -/

section Answers
variable {plugins : RawPlugins} {task row : TaskRecord} {code : Int} {name : String}
  {evaluation : Evaluation}

/-- The snapshot defines a status. -/
def Defined (task : TaskRecord) (status : Json) : Prop :=
  ∃ key statuses definition, status = .str key ∧
    (Json.get? task.pluginSnapshot "statuses").getD (.obj []) = .obj statuses ∧
    Json.get? statuses key = some (.obj definition)

/-- No `BaseException`, no exception without a text that can be stored, and, with a status that the
snapshot defines, data that JSON can encode and a label that can be stored. -/
def RawAnswer.Writable (task : TaskRecord) : RawAnswer → Prop
  | exits => False
  | raised error => error.isSome = true
  | fields status custom label => Defined task status → custom = .other ∨ custom ≠ .object none ∧
      label.isSome = true
  | _ => True

/-- What the evaluator that the registry calls does; none where it calls none. -/
def RawPlugins.answer (plugins : RawPlugins) (task : TaskRecord) (code : Int) : Option RawAnswer :=
  if Json.isFlag false (Json.get? task.pluginSnapshot "result_evaluator") then none
  else
    match Json.get? task.pluginSnapshot "name" with
    | some (.str name) =>
      match plugins.lookup name with
      | some ⟨digest, some evaluator⟩ =>
        match Json.get? task.pluginSnapshot "digest" with
        | some (.str expected) => if expected ≠ digest then none
            else some (evaluator { task with exitCode := some code })
        | _ => none
      | _ => none
    | _ => none

/-- The plugin that the snapshot names is loaded without an evaluator, or it names none. -/
def RawPlugins.Bare (plugins : RawPlugins) (task : TaskRecord) : Prop :=
  ∀ name, Json.get? task.pluginSnapshot "name" = some (.str name) →
    ∃ digest, plugins.lookup name = some ⟨digest, none⟩

/-- The registry has nothing to say: the snapshot rules an evaluator out, or there is none and the
snapshot does not promise one. -/
def RawPlugins.Silent (plugins : RawPlugins) (task : TaskRecord) : Prop :=
  Json.isFlag false (Json.get? task.pluginSnapshot "result_evaluator") = true ∨
    Json.isFlag true (Json.get? task.pluginSnapshot "result_evaluator") = false ∧ plugins.Bare task

/-- The result can be recorded: where no evaluator decides, the snapshot gives a status, and what an
evaluator has answered can be written. -/
def Recordable (plugins : RawPlugins) (task row : TaskRecord) (code : Int) : Prop :=
  (task.interruptStage.isSome = true ∨ plugins.Silent task →
    (endStatus task row code none).isSome = true) ∧
    (task.interruptStage = none → ∀ answer, plugins.answer task code = some answer →
      answer.Writable task)

/-- What the registry makes of an answer. -/
def Plugins.judged (task : TaskRecord) (name : String) :
    Answer → Option (Except String (Option (TaskStatus × Option Object)))
  | .exits => none
  | .raised error => some (throw error)
  | .other => some (throw ("plugin " ++ name ++ " evaluate_result must return a status key or object"))
  | .key key => some ((Plugins.accept task name (.str key) .missing .null).map some)
  | .fields status custom label => some ((Plugins.accept task name status custom label).map some)

/-- The verdict on a task that nobody asked to stop ends it unless the data cannot be encoded or
nothing was judged and the snapshot gives no status. -/
theorem verdict_ends (unasked : task.interruptStage = none) :
    (evaluateResult true task code evaluation).ends task row code ↔
    evaluation.Encodable ∧ (evaluation = .nothing → (endStatus task row code none).isSome = true) := by
  unfold evaluateResult Verdict.ends
  rw [unasked]
  cases evaluation with
  | nothing => exact ⟨fun ends => ⟨trivial, fun _ => ends.2⟩, fun ends => ⟨rfl, ends.2 rfl⟩⟩
  | raised error => exact iff_of_true ⟨rfl, rfl⟩ ⟨trivial, fun never => nomatch never⟩
  | result status custom =>
    have apart : (Evaluation.result status custom = .nothing →
      (endStatus task row code none).isSome = true) := fun never => nomatch never
    change Verdict.ends (if code ≠ 0 ∧ status.tone = "success" then _ else _) task row code ↔ _
    cases custom with
    | none =>
      refine iff_of_false ?_ And.left
      split <;> exact fun ends => Bool.false_ne_true ends.1
    | some custom =>
      refine iff_of_true ?_ ⟨trivial, apart⟩
      split <;> exact ⟨rfl, rfl⟩

theorem verdict_asked (asked : task.interruptStage.isSome = true) :
    (evaluateResult true task code evaluation).ends task row code ↔
    (endStatus task row code none).isSome = true := by
  unfold evaluateResult Verdict.ends
  rw [asked]
  exact ⟨And.right, fun shown => ⟨rfl, shown⟩⟩

/-- Whether an accepted status comes with data that can be encoded. -/
theorem accept_encodable {status label : Json} {custom : CustomAnswer} :
    (∃ evaluation, (some ((Plugins.accept task name status custom label).map some)).map
      Plugins.outcome = some evaluation ∧
      evaluation.Encodable) ↔ (Defined task status → custom ≠ .object none) := by
  cases accepted : Plugins.accept task name status custom label with
  | error error =>
    refine iff_of_true ⟨.raised error, rfl, trivial⟩ ?_
    rintro ⟨key, statuses, definition, rfl, isTable, defined⟩ rfl
    rw [@accept_answer task none _ _ name key label statuses definition isTable defined rfl
      (.inr rfl)] at accepted
    cases accepted
  | ok found =>
    obtain ⟨own, data⟩ := found
    obtain ⟨key, statuses, definition, isKey, isTable, defined, _, given⟩ := accept_ok accepted
    have known : Defined task status := ⟨key, statuses, definition, isKey, isTable, defined⟩
    constructor
    · rintro ⟨evaluation, same, encodable⟩ _ rfl
      cases same
      obtain ⟨never, _⟩ | same := given
      · cases never
      · cases same
        exact encodable
    · intro writable
      refine ⟨_, rfl, ?_⟩
      cases data with
      | some fields => trivial
      | none =>
        obtain ⟨_, never⟩ | same := given
        · cases never
        · exact absurd same (writable known)

/-- The registry gives an evaluation that can be encoded if and only if the answer can be written. -/
theorem judged_writable {answer : RawAnswer} :
    (∃ evaluation, (Plugins.judged task name answer.seen).map Plugins.outcome = some evaluation ∧
      evaluation.Encodable) ↔
      answer.Writable task := by
  have raises : ∀ error, ∃ evaluation,
    (some (throw error : Except String (Option (TaskStatus × Option Object)))).map Plugins.outcome =
      some evaluation ∧ evaluation.Encodable := fun error => ⟨.raised error, rfl, trivial⟩
  cases answer with
  | key key => exact accept_encodable.trans (iff_of_true (fun _ => nofun) trivial)
  | other => exact iff_of_true (raises _) trivial
  | exits => exact iff_of_false (fun ⟨_, never, _⟩ => nomatch never) not_false
  | raised error =>
    cases error with
    | none => exact iff_of_false (fun ⟨_, never, _⟩ => nomatch never) Bool.false_ne_true
    | some error => exact iff_of_true (raises error) rfl
  | fields status custom label =>
    cases label with
    | some label =>
      refine accept_encodable.trans (forall_congr' (fun _ => ?_))
      constructor
      · exact fun encodes => .inr ⟨encodes, rfl⟩
      · rintro (rfl | ⟨encodes, _⟩)
        · nofun
        · exact encodes
    | none =>
      refine accept_encodable.trans (forall_congr' (fun _ => ?_))
      constructor
      · intro encodes
        cases custom with
        | other => exact .inl rfl
        | missing => exact absurd rfl encodes
        | object fields => exact absurd rfl encodes
      · rintro (rfl | ⟨_, never⟩)
        · nofun
        · cases never

/-- An answer is never taken for silence. -/
theorem judged_speaks {answer : Answer} :
    (Plugins.judged task name answer).map Plugins.outcome ≠ some .nothing := by
  have accepted : ∀ result : Except String (TaskStatus × Option Object),
    Plugins.outcome (result.map some) ≠ .nothing := by
    intro result
    cases result <;> nofun
  cases answer with
  | key key => exact fun silent => accepted _ (Option.some.inj silent)
  | fields status custom label => exact fun silent => accepted _ (Option.some.inj silent)
  | other => nofun
  | exits => nofun
  | raised => nofun

theorem lookup_seen : plugins.seen.lookup name = (plugins.lookup name).map RawPlugin.seen := by
  unfold RawPlugins.seen
  induction plugins with
  | nil => rfl
  | cons entry rest ih =>
    rw [List.map_cons, List.lookup_cons, List.lookup_cons, ih]
    split <;> rfl

theorem evaluation_bare
    (unruled : Json.isFlag false (Json.get? task.pluginSnapshot "result_evaluator") = false)
    (bare : plugins.Bare task) :
    plugins.answer task code = none ∧ ∃ error, plugins.seen.evaluation task code =
      if Json.isFlag true (Json.get? task.pluginSnapshot "result_evaluator") then
        some (.raised error) else some .nothing := by
  have missing : ∀ error, (if Json.isFlag true (Json.get? task.pluginSnapshot "result_evaluator") then
      some (throw error : Except String (Option (TaskStatus × Option Object)))
        else some (pure none)).map Plugins.outcome =
        if Json.isFlag true (Json.get? task.pluginSnapshot "result_evaluator") then
          some (.raised error) else some .nothing := by
    intro error
    split <;> rfl
  unfold RawPlugins.answer Plugins.evaluation Plugins.evaluateResult
  dsimp only
  rw [unruled, if_neg Bool.false_ne_true, if_neg Bool.false_ne_true]
  cases named : Json.get? task.pluginSnapshot "name" with
  | none => exact ⟨rfl, _, missing _⟩
  | some value =>
    cases value with
    | str name =>
      obtain ⟨digest, isLoaded⟩ := bare name named
      dsimp only [Option.getD]
      rw [lookup_seen, isLoaded]
      exact ⟨rfl, _, missing _⟩
    | null => exact ⟨rfl, _, missing _⟩
    | bool => exact ⟨rfl, _, missing _⟩
    | int => exact ⟨rfl, _, missing _⟩
    | float => exact ⟨rfl, _, missing _⟩
    | arr => exact ⟨rfl, _, missing _⟩
    | obj => exact ⟨rfl, _, missing _⟩

theorem evaluation_named
    (unruled : Json.isFlag false (Json.get? task.pluginSnapshot "result_evaluator") = false)
    (loaded : ¬ plugins.Bare task) :
    plugins.answer task code = none ∧
    (∃ error, plugins.seen.evaluation task code = some (.raised error)) ∨
      ∃ answer name, plugins.answer task code = some answer ∧ plugins.seen.evaluation task code =
        (Plugins.judged { task with exitCode := some code } name answer.seen).map Plugins.outcome := by
  obtain ⟨name, loaded⟩ := not_forall.mp loaded
  obtain ⟨named, loaded⟩ := Classical.not_imp.mp loaded
  unfold RawPlugins.answer Plugins.evaluation Plugins.evaluateResult
  dsimp only
  rw [unruled, if_neg Bool.false_ne_true, if_neg Bool.false_ne_true, named]
  dsimp only [Option.getD]
  rw [lookup_seen]
  cases isLoaded : plugins.lookup name with
  | none => exact .inl ⟨rfl, _, rfl⟩
  | some plugin =>
    obtain ⟨digest, evaluator⟩ := plugin
    cases evaluator with
    | none => exact absurd ⟨digest, isLoaded⟩ loaded
    | some evaluator =>
      dsimp only [Option.map, RawPlugin.seen]
      cases Json.get? task.pluginSnapshot "digest" with
      | none => exact .inl ⟨rfl, _, rfl⟩
      | some value =>
        cases value with
        | str expected =>
          dsimp only
          by_cases same : expected = digest
          · rw [if_neg (not_not.mpr same), if_neg (not_not.mpr same)]
            exact .inr ⟨_, name, rfl, rfl⟩
          · rw [if_pos same, if_pos same]
            exact .inl ⟨rfl, _, rfl⟩
        | null => exact .inl ⟨rfl, _, rfl⟩
        | bool => exact .inl ⟨rfl, _, rfl⟩
        | int => exact .inl ⟨rfl, _, rfl⟩
        | float => exact .inl ⟨rfl, _, rfl⟩
        | arr => exact .inl ⟨rfl, _, rfl⟩
        | obj => exact .inl ⟨rfl, _, rfl⟩

/-- The call of the registry: it has nothing to say, it raises before it calls an evaluator, or it
judges its answer. -/
theorem evaluation_cases :
    (plugins.Silent task ∧ plugins.answer task code = none ∧
      plugins.seen.evaluation task code = some .nothing) ∨
    (¬ plugins.Silent task ∧ plugins.answer task code = none ∧
      ∃ error, plugins.seen.evaluation task code = some (.raised error)) ∨
    ¬ plugins.Silent task ∧ ∃ answer name, plugins.answer task code = some answer ∧
      plugins.seen.evaluation task code =
        (Plugins.judged { task with exitCode := some code } name answer.seen).map Plugins.outcome := by
  cases ruledOut : Json.isFlag false (Json.get? task.pluginSnapshot "result_evaluator") with
  | true =>
    refine .inl ⟨.inl ruledOut, ?_, ?_⟩
    · unfold RawPlugins.answer
      rw [ruledOut]
      rfl
    · unfold Plugins.evaluation Plugins.evaluateResult
      dsimp only
      rw [ruledOut]
      rfl
  | false =>
    by_cases bare : plugins.Bare task
    · obtain ⟨unanswered, error, evaluates⟩ := @evaluation_bare plugins task code ruledOut bare
      cases promised : Json.isFlag true (Json.get? task.pluginSnapshot "result_evaluator") with
      | false =>
        rw [promised] at evaluates
        exact .inl ⟨.inr ⟨promised, bare⟩, unanswered, evaluates⟩
      | true =>
        rw [promised] at evaluates
        refine .inr (.inl ⟨?_, unanswered, error, evaluates⟩)
        rintro (ruled | ⟨unpromised, _⟩)
        · exact Bool.false_ne_true (ruledOut.symm.trans ruled)
        · exact Bool.false_ne_true (unpromised.symm.trans promised)
    · have spoken : ¬ plugins.Silent task := by
        rintro (ruled | ⟨_, never⟩)
        · exact Bool.false_ne_true (ruledOut.symm.trans ruled)
        · exact bare never
      obtain ⟨unanswered, raises⟩ | answered := @evaluation_named plugins task code ruledOut bare
      · exact .inr (.inl ⟨spoken, unanswered, raises⟩)
      · exact .inr (.inr ⟨spoken, answered⟩)

/-- A judgement ends the task if and only if the result can be recorded. -/
theorem judgement_ends : (∃ evaluation, plugins.seen.judgement task code = some evaluation ∧
    (evaluateResult true task code evaluation).ends task row code) ↔
      Recordable plugins task row code := by
  unfold Plugins.judgement Recordable
  cases stage : task.interruptStage with
  | some asked =>
    have asked : task.interruptStage.isSome = true := congrArg Option.isSome stage
    constructor
    · rintro ⟨evaluation, _, ends⟩
      exact ⟨fun _ => (verdict_asked asked).mp ends, nofun⟩
    · exact fun recordable => ⟨.nothing, rfl, (verdict_asked asked).mpr (recordable.1 (.inl rfl))⟩
  | none =>
    change (∃ evaluation, plugins.seen.evaluation task code = some evaluation ∧ _) ↔ _
    obtain ⟨silent, unanswered, evaluates⟩ | ⟨spoken, unanswered, error, evaluates⟩ | ⟨spoken,
      answer, name, answered, evaluates⟩ :=
      @evaluation_cases plugins task code
    · rw [unanswered, evaluates]
      constructor
      · rintro ⟨_, same, ends⟩
        cases same
        exact ⟨fun _ => ((verdict_ends stage).mp ends).2 rfl, nofun⟩
      · exact fun recordable =>
          ⟨_, rfl, (verdict_ends stage).mpr ⟨trivial, fun _ => recordable.1 (.inr silent)⟩⟩
    · rw [unanswered, evaluates]
      refine iff_of_true ⟨_, rfl, (verdict_ends stage).mpr ⟨trivial, nofun⟩⟩ ⟨?_, nofun⟩
      rintro (never | silent)
      · cases never
      · exact absurd silent spoken
    · rw [answered, evaluates]
      have writable := @judged_writable { task with exitCode := some code } name answer
      constructor
      · rintro ⟨evaluation, judged, ends⟩
        obtain ⟨encodable, _⟩ := (verdict_ends stage).mp ends
        refine ⟨?_, ?_⟩
        · rintro (never | silent)
          · cases never
          · exact absurd silent spoken
        · intro _ given same
          cases same
          exact writable.mp ⟨evaluation, judged, encodable⟩
      · rintro ⟨_, writes⟩
        obtain ⟨evaluation, judged, encodable⟩ := writable.mpr (writes rfl answer rfl)
        refine ⟨evaluation, judged, (verdict_ends stage).mpr ⟨encodable, fun silent => ?_⟩⟩
        exact absurd (silent ▸ judged) judged_speaks

end Answers

section Ends
variable {config : Config} {s : System} {recovery : Recovery} {moment : Moment} {task row : TaskRecord}

/-- The end of a process ends its task with the exit code, when `_wait` records it and when
`recover` does, if and only if the result can be recorded. -/
theorem evaluation_ends_iff (found : s.db.getTask task.id = some row)
    (live : row.state.active = true) (plugins : RawPlugins)
    (code : Int) :
    (EndedWith (((s.slot task.id).waitEnds moment task.id plugins.seen task code).db.getTask
      task.id) code ↔
      Recordable plugins task row code) ∧
    (EndedWith ((s.recoverEnds config recovery plugins.seen task code).db.getTask task.id) code ↔
      Recordable plugins task row code) := by
  have stays : ¬ EndedWith (s.db.getTask task.id) code := by
    rw [found]
    exact not_endedWith live
  rw [← judgement_ends]
  constructor
  · unfold Slot.waitEnds
    cases judged : plugins.seen.judgement task code with
    | none =>
      refine iff_of_false stays ?_
      rintro ⟨_, never, _⟩
      cases never
    | some evaluation =>
      refine (waitEvaluated_ends found live).trans ⟨fun ends => ⟨evaluation, rfl, ends⟩, ?_⟩
      rintro ⟨_, same, ends⟩
      cases same
      exact ends
  · unfold System.recoverEnds
    cases judged : plugins.seen.judgement task code with
    | none =>
      refine iff_of_false stays ?_
      rintro ⟨_, never, _⟩
      cases never
    | some evaluation =>
      refine (recoverEvaluated_ends found live).trans ⟨fun ends => ⟨evaluation, rfl, ends⟩, ?_⟩
      rintro ⟨_, same, ends⟩
      cases same
      exact ends

/-- The plugin of one status whose evaluator answers with some data. -/
def answering (custom : CustomAnswer) : RawPlugins :=
  [("check", ⟨"d1", some (fun _ => .fields (.str "ok") custom (some .null))⟩)]

/-- An answer with data of its own ends the task, which holds the data then. -/
theorem evaluation_ends_measured :
    let next := ((((judgedSystem "ok" "success").slot "a").waitEnds ⟨"2024", 0, none⟩ "a"
      (answering (.object (some [("score", .int 7)]))).seen
        (judgedTask "ok" "success") 0).db.getTask "a")
    next.any (fun row => (Json.get? row.custom "score").any (fun score => score.text = "7")) =
      true ∧ EndedWith next 0 := by
  have recordable : Recordable (answering (.object (some [("score", .int 7)])))
    (judgedTask "ok" "success")
      (judgedTask "ok" "success") 0 := by
    constructor
    · rintro (asked | ruled | ⟨unpromised, _⟩)
      · cases asked
      · cases ruled
      · cases unpromised
    · intro _ answer answered
      cases answered
      exact fun _ => .inr ⟨nofun, rfl⟩
  refine ⟨by decide +kernel, ?_⟩
  exact (@evaluation_ends_iff (Config.plain .systemd) (judgedSystem "ok" "success")
    ⟨none, false, [], none, .next⟩ ⟨"2024", 0, none⟩
    (judgedTask "ok" "success") _ rfl rfl (answering (.object (some [("score", .int 7)]))) 0).1.mpr
      recordable

/-- Data that JSON cannot encode strands the task. -/
theorem evaluation_strands :
    ¬ ∀ (s : System) (moment : Moment) (plugins : RawPlugins) (task row : TaskRecord) (code : Int),
    s.db.getTask task.id = some row → row.state.active = true →
    EndedWith (((s.slot task.id).waitEnds moment task.id plugins.seen task code).db.getTask task.id)
      code := by
  intro always
  have ends := always (judgedSystem "ok" "success") ⟨"2024", 0, none⟩ (answering (.object none))
    (judgedTask "ok" "success") _ 0 rfl rfl
  obtain ⟨new, same, ended, _⟩ := ends
  cases same
  cases ended

end Ends

end LocalFlow
