import LocalFlow.Service.Completing

/-! The status of a task whose plugin judges its result: the answer of the evaluator, what the registry and
`_evaluate_result` make of it, and what is shown from the row that `_wait` leaves. -/
namespace LocalFlow
open Transition

/-- The `custom` of an answer. Data that JSON cannot encode is `object none`. -/
inductive CustomAnswer where
  | missing | other
  | object (fields : Option Object)

/-- What `evaluate_result` of a plugin does. `exits` is an exception that is no `Exception`. -/
inductive Answer where
  | key (key : String)
  | fields (status : Json) (custom : CustomAnswer) (label : Json)
  | other | exits
  | raised (error : String)

/-- A loaded plugin. Without a callable `evaluate_result` there is no evaluator. -/
structure LoadedPlugin where
  digest : String
  evaluator : Option (TaskRecord → Answer)

abbrev Plugins := List (String × LoadedPlugin)

/-- `type(value).__name__`. -/
def Json.typeName : Json → String
  | .null => "NoneType"
  | .bool _ => "bool"
  | .int _ => "int"
  | .float _ => "float"
  | .str _ => "str"
  | .arr _ => "list"
  | .obj _ => "dict"

/-- `value is flag`. -/
def Json.isFlag (flag : Bool) : Option Json → Bool
  | some (.bool b) => b == flag
  | _ => false

namespace Plugins

def statusLabel (label : Json) (definition : Object) (key : String) : String :=
  if label.truthy then label.text else ((Json.get? definition "label").getD (.str key)).text

def statusTone (definition : Object) : String :=
  ((Json.get? definition "tone").getD (.str "neutral")).text

/-- The status that an answer names. -/
def accept (task : TaskRecord) (name : String) (status : Json) (custom : CustomAnswer) (label : Json) :
    Except String (TaskStatus × Option Object) :=
  match ((Json.get? task.pluginSnapshot "statuses").getD (.obj [])).asObject? with
  | none => throw ("'" ++ ((Json.get? task.pluginSnapshot "statuses").getD .null).typeName ++
      "' object has no attribute 'get'")
  | some statuses =>
    if status.hashable then
      match status with
      | .str key =>
        match Json.get? statuses key with
        | some (.obj definition) =>
          let shown : TaskStatus := ⟨key, statusLabel label definition key, statusTone definition, true⟩
          match custom with
          | .other => throw ("plugin " ++ name ++ " result custom data must be an object")
          | .missing => pure (shown, some task.custom)
          | .object fields => pure (shown, fields)
        | _ => throw ("plugin " ++ name ++ " returned unknown status: " ++ status.repr)
      | _ => throw ("plugin " ++ name ++ " returned unknown status: " ++ status.repr)
    else throw ("unhashable type: '" ++ status.typeName ++ "'")

/-- `evaluate_result` of the registry; `none` when an exception passes every handler. -/
def evaluateResult (plugins : Plugins) (task : TaskRecord) :
    Option (Except String (Option (TaskStatus × Option Object))) :=
  let snapshot := task.pluginSnapshot
  let name := (Json.get? snapshot "name").getD .null
  let missing := if Json.isFlag true (Json.get? snapshot "result_evaluator") then
      some (throw ("plugin " ++ name.text ++ " result evaluator is unavailable"))
    else some (pure none)
  if Json.isFlag false (Json.get? snapshot "result_evaluator") then some (pure none)
  else
    match name with
    | .str name =>
      match plugins.lookup name with
      | none => some (throw ("plugin " ++ name ++ " is unavailable for result evaluation"))
      | some loaded =>
        match loaded.evaluator with
        | none => missing
        | some evaluator =>
          match Json.get? snapshot "digest" with
          | some (.str digest) =>
            if digest ≠ loaded.digest then
              some (throw ("plugin " ++ name ++ " changed after task submission"))
            else
              match evaluator task with
              | .exits => none
              | .raised error => some (throw error)
              | .other => some (throw
                  ("plugin " ++ name ++ " evaluate_result must return a status key or object"))
              | .key key => some ((accept task name (.str key) .missing .null).map some)
              | .fields status custom label => some ((accept task name status custom label).map some)
          | _ => some (throw ("plugin " ++ name ++ " changed after task submission"))
    | _ => missing

/-- What `_evaluate_result` sees of a call. -/
def outcome : Except String (Option (TaskStatus × Option Object)) → Evaluation
  | .error error => .raised error
  | .ok none => .nothing
  | .ok (some (status, custom)) => .result status custom

/-- The evaluation of a task that has ended with a code. -/
def evaluation (plugins : Plugins) (task : TaskRecord) (code : Int) : Option Evaluation :=
  (plugins.evaluateResult { task with exitCode := some code }).map outcome

end Plugins

/-- `_wait` from the call of the evaluator on. -/
def Slot.waitJudged (slot : Slot) (moment : Moment) (id : TaskId) (plugins : Plugins)
    (task : TaskRecord) (code : Int) : Slot :=
  match plugins.evaluation task code with
  | none => slot.withWaiter none
  | some evaluation => slot.waitEvaluated moment id task code (evaluateResult true task code evaluation)

/-- `recover` from the call of the evaluator on. -/
def System.recoverJudged (config : Config) (s : System) (recovery : Recovery) (plugins : Plugins)
    (task : TaskRecord)
    (code : Int) : System :=
  match plugins.evaluation task code with
  | none => s.crash config
  | some evaluation =>
    s.recoverEvaluated config recovery task code (evaluateResult true task code evaluation)

/-- The call of the registry gives the evaluation of the step in which a controller resumes. -/
theorem waitJudged_step {slot : Slot} {moment : Moment} {id : TaskId} {plugins : Plugins}
    {task : TaskRecord} {code : Int}
    {config : Config} {evaluation : Evaluation} (configured : config.hasEvaluator = true)
    (evaluates : plugins.evaluation task code = some evaluation) :
    slot.waitStep config moment id (some (.evaluating task code)) (.waitEvaluated evaluation) =
      some (slot.waitJudged moment id plugins task code) := by
  unfold Slot.waitStep Slot.waitJudged
  rw [evaluates, configured]

theorem recoverJudged_step {config : Config} {s : System} {recovery : Recovery} {plugins : Plugins}
    {task : TaskRecord}
    {code : Int} {evaluation : Evaluation} (configured : config.hasEvaluator = true)
    (evaluates : plugins.evaluation task code = some evaluation)
    (point : recovery.point = .evaluating task code) :
    s.recoverStep config recovery (.evaluated evaluation) =
      some (s.recoverJudged config recovery plugins task code) := by
  unfold System.recoverStep System.recoverJudged
  rw [evaluates, configured, point]

/-- The status `_task` reads from a row: the stored one unless its key is empty. -/
def TaskRecord.shown (row : TaskRecord) : Option TaskStatus :=
  if row.status.key ≠ "" then some row.status
  else displayStatus row.pluginSnapshot row.state row.exitCode row.interruptStage

section Usable
variable {plugins : Plugins} {task row new : TaskRecord} {code : Int} {own status : TaskStatus}
  {custom : Option Object}

/-- A usable answer: the key, the custom data and the label. -/
inductive Usable (task : TaskRecord) : Answer → String → Option Object → Json → Prop where
  | key (key : String) : Usable task (.key key) key (some task.custom) .null
  | missing (key : String) (label : Json) : Usable task (.fields (.str key) .missing label) key
      (some task.custom) label
  | object (key : String) (fields : Option Object) (label : Json) :
      Usable task (.fields (.str key) (.object fields) label) key fields label

/-- The plugin that the snapshot names is loaded as it was at submission, and its evaluator gives a
status that the snapshot defines. -/
inductive Judges (plugins : Plugins) (task : TaskRecord) (code : Int) :
    TaskStatus → Option Object → Prop where
  | intro (name : String) (loaded : LoadedPlugin) (evaluator : TaskRecord → Answer) (key : String)
      (custom : Option Object)
      (label : Json) (statuses definition : Object)
        (named : Json.get? task.pluginSnapshot "name" = some (.str name))
      (isLoaded : plugins.lookup name = some loaded)
        (unchanged : Json.get? task.pluginSnapshot "digest" = some (.str loaded.digest))
      (evaluates : loaded.evaluator = some evaluator)
      (answers : Usable task (evaluator { task with exitCode := some code }) key custom label)
      (isTable : (Json.get? task.pluginSnapshot "statuses").getD (.obj []) = .obj statuses)
      (defined : Json.get? statuses key = some (.obj definition)) :
      Judges plugins task code
        ⟨key, Plugins.statusLabel label definition key, Plugins.statusTone definition, true⟩ custom

/-- An accepted answer names a status of the snapshot. -/
theorem accept_ok {name : String} {answer : Json} {given : CustomAnswer} {label : Json}
    (same : Plugins.accept task name answer given label = .ok (own, custom)) :
    ∃ key statuses definition, answer = .str key ∧
    (Json.get? task.pluginSnapshot "statuses").getD (.obj []) = .obj statuses ∧
      Json.get? statuses key = some (.obj definition) ∧
      own = ⟨key, Plugins.statusLabel label definition key, Plugins.statusTone definition, true⟩ ∧
      (given = .missing ∧ custom = some task.custom ∨ given = .object custom) := by
  unfold Plugins.accept at same
  split at same
  · cases same
  · rename_i statuses isTable
    have table : (Json.get? task.pluginSnapshot "statuses").getD (.obj []) = .obj statuses := by
      revert isTable
      cases (Json.get? task.pluginSnapshot "statuses").getD
        (.obj []) <;> intro isTable <;> cases isTable
      rfl
    split at same
    · split at same
      · rename_i key hashable
        split at same
        · rename_i definition defined
          refine ⟨key, statuses, definition, rfl, table, defined, ?_⟩
          dsimp only at same
          split at same
          · cases same
          · cases same
            exact ⟨rfl, .inl ⟨rfl, rfl⟩⟩
          · cases same
            exact ⟨rfl, .inr rfl⟩
        · cases same
      · cases same
    · cases same

theorem accept_answer {answer : Json} {given : CustomAnswer} {name key : String} {label : Json}
    {statuses definition : Object}
    (isTable : (Json.get? task.pluginSnapshot "statuses").getD (.obj []) = .obj statuses)
    (defined : Json.get? statuses key = some (.obj definition)) (isKey : answer = .str key)
    (isCustom : given = .missing ∧ custom = some task.custom ∨ given = .object custom) :
    Plugins.accept task name answer given label =
      .ok (⟨key, Plugins.statusLabel label definition key, Plugins.statusTone definition, true⟩,
        custom) := by
  unfold Plugins.accept
  rw [isTable, isKey]
  dsimp only [Json.asObject?]
  have hashable : (Json.str key).hashable = true := rfl
  rw [if_pos hashable, defined]
  obtain ⟨rfl, rfl⟩ | rfl := isCustom
  · rfl
  · rfl

/-- A call gives a status that is accepted, or raises. -/
def Decides (plugins : Plugins) (task : TaskRecord) (code : Int) (evaluation : Evaluation) : Prop :=
  (∃ error, evaluation = .raised error) ∨ ∃ own custom, evaluation = .result own custom ∧
    Judges plugins task code own custom

theorem decides_judges {name : String} {loaded : LoadedPlugin} {evaluator : TaskRecord → Answer}
    {answer : Json}
    {given : CustomAnswer} {label : Json}
    (named : Json.get? task.pluginSnapshot "name" = some (.str name))
    (isLoaded : plugins.lookup name = some loaded)
    (unchanged : Json.get? task.pluginSnapshot "digest" = some (.str loaded.digest))
    (evaluates : loaded.evaluator = some evaluator)
    (answers : ∀ key custom, answer = .str key → given = .missing ∧ custom = some task.custom ∨
      given = .object custom →
      Usable task (evaluator { task with exitCode := some code }) key custom label) :
    Decides plugins task code
      (Plugins.outcome
        ((Plugins.accept { task with exitCode := some code } name answer given label).map some)) := by
  cases accepted : Plugins.accept { task with exitCode := some code } name answer given label with
  | error error => exact .inl ⟨error, rfl⟩
  | ok found =>
    obtain ⟨own, custom⟩ := found
    obtain ⟨key, statuses, definition, isKey, isTable, defined, rfl, isCustom⟩ := accept_ok accepted
    exact .inr ⟨_, custom, rfl,
      .intro name loaded evaluator key custom label statuses definition named isLoaded unchanged
      evaluates (answers key custom isKey isCustom) isTable defined⟩

variable (told : Json.isFlag true (Json.get? task.pluginSnapshot "result_evaluator") = true)
include told

theorem unflagged : Json.isFlag false (Json.get? task.pluginSnapshot "result_evaluator") = false := by
  revert told
  cases Json.get? task.pluginSnapshot "result_evaluator" with
  | none => exact fun told => nomatch told
  | some value => cases value <;> simp [Json.isFlag]

/-- The evaluator of a task that has one always gives a status or raises. -/
theorem evaluation_decides {evaluation : Evaluation}
    (same : plugins.evaluation task code = some evaluation) :
    Decides plugins task code evaluation := by
  obtain ⟨result, returned, rfl⟩ := Option.map_eq_some_iff.mp same
  have raises : ∀ error, Decides plugins task code (Plugins.outcome (.error error)) := fun error =>
    .inl ⟨error, rfl⟩
  unfold Plugins.evaluateResult at returned
  dsimp only at returned
  rw [unflagged told, told, if_neg Bool.false_ne_true, if_pos rfl] at returned
  split at returned
  · rename_i name isName
    have named : Json.get? task.pluginSnapshot "name" = some (.str name) := by
      cases found : Json.get? task.pluginSnapshot "name" with
      | none =>
        rw [found] at isName
        cases isName
      | some value =>
        rw [found] at isName
        exact congrArg some isName
    split at returned
    · cases returned
      exact raises _
    · rename_i loaded isLoaded
      split at returned
      · cases returned
        exact raises _
      · rename_i evaluator evaluates
        split at returned
        · rename_i digest isDigest
          split at returned
          · cases returned
            exact raises _
          · rename_i unchanged
            rw [not_not.mp unchanged] at isDigest
            split at returned
            · cases returned
            · cases returned
              exact raises _
            · cases returned
              exact raises _
            · rename_i key answered
              cases returned
              refine decides_judges named isLoaded isDigest evaluates
                (fun key' custom isKey isCustom => ?_)
              cases isKey
              obtain ⟨_, rfl⟩ | never := isCustom
              · rw [answered]
                exact .key key
              · cases never
            · rename_i answer given label answered
              cases returned
              refine decides_judges named isLoaded isDigest evaluates
                (fun key custom isKey isCustom => ?_)
              rw [answered, isKey]
              obtain ⟨rfl, rfl⟩ | rfl := isCustom
              · exact .missing key label
              · exact .object key custom label
        · cases returned
          exact raises _
  · cases returned
    exact raises _

/-- An accepted status is the evaluation. -/
theorem Judges.evaluation (judges : Judges plugins task code own custom) :
    plugins.evaluation task code = some (.result own custom) := by
  cases judges with
  | intro name loaded evaluator key _ label statuses definition named isLoaded unchanged evaluates
      answers isTable defined =>
    have unflagged := unflagged told
    unfold Plugins.evaluation Plugins.evaluateResult
    dsimp only
    rw [unflagged, if_neg Bool.false_ne_true, named]
    dsimp only [Option.getD]
    rw [isLoaded]
    dsimp only
    rw [evaluates]
    dsimp only
    rw [unchanged]
    dsimp only
    rw [if_neg (not_not.mpr rfl)]
    cases answered : evaluator { task with exitCode := some code } with
    | other =>
      rw [answered] at answers
      cases answers
    | exits =>
      rw [answered] at answers
      cases answers
    | raised =>
      rw [answered] at answers
      cases answers
    | key given =>
      rw [answered] at answers
      cases answers
      dsimp only
      rw [@accept_answer { task with exitCode := some code }
        (some task.custom) _ _ _ _ _ _ _ isTable defined rfl (.inl ⟨rfl, rfl⟩)]
      rfl
    | fields status given label' =>
      rw [answered] at answers
      cases answers with
      | missing =>
        dsimp only
        rw [@accept_answer { task with exitCode := some code }
          (some task.custom) _ _ _ _ _ _ _ isTable defined rfl (.inl ⟨rfl, rfl⟩)]
        rfl
      | object =>
        dsimp only
        rw [@accept_answer { task with exitCode := some code } custom _ _ _ _ _ _ _ isTable defined
          rfl (.inr rfl)]
        rfl

end Usable

/-! ## What is shown -/

section Closed
variable {config : Config} {s : System} {recovery : Recovery} {moment : Moment} {plugins : Plugins}
  {row new : TaskRecord}
variable {code : Int} {own status : TaskStatus} {custom : Option Object}

/-- The state of a task that nobody asked to stop. -/
def exitState (code : Int) : TaskState := if code = 0 then .succeeded else .failed

theorem resultState_unasked (unasked : row.interruptStage = none) :
    Slot.resultState row code = exitState code := by
  unfold Slot.resultState
  rw [unasked]
  rfl

/-- The end of a task whose evaluator has the last word: the tone of success needs the exit code 0
and an accepted status of that tone, and without both another status of the evaluator or a danger is
shown. State and exit code are those of the process. -/
structure FailsClosed (plugins : Plugins) (row : TaskRecord) (code : Int) (new : TaskRecord) :
    Prop where
  state : new.state = exitState code
  exitCode : new.exitCode = some code
  passes : ∀ status, new.shown = some status → status.tone = "success" →
    code = 0 ∧ ∃ own custom, Judges plugins row code own custom ∧ own.tone = "success"
  otherwise : ∀ status, new.shown = some status →
    (code = 0 ∧ ∃ own custom, Judges plugins row code own custom ∧ own.tone = "success") ∨
    status.tone = "danger" ∨ ∃ custom, Judges plugins row code status custom ∧ status.tone ≠ "success"

/-- An accepted status of the empty key is lost to the exit code rules of the snapshot. They are
closed if they give a danger or that status again wherever it is no success. -/
def RulesClosed (plugins : Plugins) (row : TaskRecord) (code : Int) : Prop :=
  ∀ own custom, Judges plugins row code own (some custom) → own.key = "" → own.tone ≠ "success" →
    ∀ status, displayStatus row.pluginSnapshot (exitState code) (some code) = some status →
      status.tone = "danger" ∨ status = own

/-- What a status is shown as once it is stored with the exit code. -/
theorem shown_stored {fields : List Field} (unasked : row.interruptStage = none)
    (exits : (row.assign fields).exitCode = some code)
    (silent : (row.assign fields).interruptStage = row.interruptStage) :
    (row.moved (exitState code) fields status).shown =
      if status.key ≠ "" then some status
        else displayStatus row.pluginSnapshot (exitState code) (some code) := by
  unfold TaskRecord.shown
  have isStatus : (row.moved (exitState code) fields status).status = status := rfl
  have isState : (row.moved (exitState code) fields status).state = exitState code := rfl
  have isCode : (row.moved (exitState code) fields status).exitCode = some code := exits
  have isStage : (row.moved (exitState code) fields status).interruptStage = none :=
    silent.trans unasked
  rw [isStatus, isState, isCode, isStage, moved_pluginSnapshot]

/-- The answer of a plugin is the verdict on a task that nobody asked to stop, unless its success is
contradicted. -/
theorem verdict_result (unasked : row.interruptStage = none)
    (allowed : own.tone = "success" → code = 0) :
    evaluateResult true row code (.result own custom) = ⟨some own, custom, false⟩ := by
  unfold evaluateResult
  rw [unasked]
  refine (if_neg Bool.false_ne_true).trans ?_
  exact if_neg (fun overridden => overridden.1 (allowed overridden.2))

theorem verdict_contradicted (unasked : row.interruptStage = none) (failed : code ≠ 0)
    (isSuccess : own.tone = "success") :
    (evaluateResult true row code (.result own custom)).statusOverride =
      some ⟨"execution_failed", "进程失败", "danger", true⟩ := by
  unfold evaluateResult
  rw [unasked]
  have overridden : code ≠ 0 ∧ own.tone = "success" := ⟨failed, isSuccess⟩
  exact congrArg Verdict.statusOverride (if_pos overridden)

theorem verdict_raised (unasked : row.interruptStage = none) (error : String) :
    (evaluateResult true row code (.raised error)).statusOverride =
      some ⟨"evaluation_error", "结果解析失败", "danger", true⟩ := by
  unfold evaluateResult
  rw [unasked]
  rfl

/-- An end with an accepted success fails closed whatever is shown of it. -/
theorem failsClosed_success {fields : List Field} (exits : (row.assign fields).exitCode = some code)
    (judges : Judges plugins row code own custom) (isSuccess : own.tone = "success")
    (clean : code = 0) :
    FailsClosed plugins row code (row.moved (exitState code) fields own) where
  state := rfl
  exitCode := exits
  passes := fun _ _ _ => ⟨clean, own, custom, judges, isSuccess⟩
  otherwise := fun _ _ => .inl ⟨clean, own, custom, judges, isSuccess⟩

/-- A stored status that nothing replaces. -/
theorem failsClosed_kept {fields : List Field} (unasked : row.interruptStage = none)
    (exits : (row.assign fields).exitCode = some code)
    (silent : (row.assign fields).interruptStage = row.interruptStage)
    (named : status.key ≠ "") (failing : status.tone ≠ "success")
    (closed : status.tone = "danger" ∨ ∃ custom, Judges plugins row code status custom) :
    FailsClosed plugins row code (row.moved (exitState code) fields status) := by
  have isShown := @shown_stored row code status fields unasked exits silent
  rw [if_pos named] at isShown
  refine ⟨rfl, exits, ?_, ?_⟩
  · intro seen same isSuccess
    rw [isShown] at same
    cases same
    exact absurd isSuccess failing
  · intro seen same
    rw [isShown] at same
    cases same
    obtain danger | ⟨custom, judges⟩ := closed
    · exact .inr (.inl danger)
    · exact .inr (.inr ⟨custom, judges, failing⟩)

variable (told : Json.isFlag true (Json.get? row.pluginSnapshot "result_evaluator") = true)
include told

theorem judges_unique {first : TaskStatus} {given : Option Object}
    (judges : Judges plugins row code own custom)
    (again : Judges plugins row code first given) : first = own ∧ given = custom := by
  have same := (again.evaluation told).symm.trans (judges.evaluation told)
  cases same
  exact ⟨rfl, rfl⟩

theorem rulesClosed_raised {error : String}
    (raised : plugins.evaluation row code = some (.raised error)) :
    RulesClosed plugins row code := by
  intro own custom judges _ _ _ _
  rw [judges.evaluation told] at raised
  cases raised

theorem rulesClosed_accepted (judges : Judges plugins row code own custom)
    (kept : own.key ≠ "" ∨ own.tone = "success") :
    RulesClosed plugins row code := by
  intro first given again isEmpty failing _ _
  obtain ⟨rfl, _⟩ := judges_unique told judges again
  obtain named | isSuccess := kept
  · exact absurd isEmpty named
  · exact absurd isSuccess failing

variable {fields : List Field} {evaluation : Evaluation} {given : Object}
  (unasked : row.interruptStage = none)
variable (exits : (row.assign fields).exitCode = some code)
  (silent : (row.assign fields).interruptStage = row.interruptStage)
include unasked exits silent

/-- A stored status of the empty key is replaced by what the rules give. -/
theorem failsClosed_empty (judges : Judges plugins row code own (some given)) (isEmpty : own.key = "")
    (failing : own.tone ≠ "success") :
    FailsClosed plugins row code (row.moved (exitState code) fields own) ↔
      RulesClosed plugins row code := by
  have isShown := @shown_stored row code own fields unasked exits silent
  rw [if_neg (not_not.mpr isEmpty)] at isShown
  constructor
  · intro closed first custom again _ _ status rules
    obtain ⟨rfl, _⟩ := judges_unique told judges again
    obtain ⟨_, first, custom, other, isSuccess⟩ | danger | ⟨custom, other, _⟩ :=
      closed.otherwise status (isShown.trans rules)
    · obtain ⟨rfl, _⟩ := judges_unique told judges other
      exact absurd isSuccess failing
    · exact .inl danger
    · exact .inr (judges_unique told judges other).1
  · intro closed
    have seen : ∀ status, (row.moved (exitState code) fields own).shown = some status →
        status.tone = "danger" ∨ status = own :=
      fun status same => closed own _ judges isEmpty failing status (isShown.symm.trans same)
    refine ⟨rfl, exits, ?_, ?_⟩
    · intro status same isSuccess
      obtain danger | rfl := seen status same
      · rw [danger] at isSuccess
        exact absurd isSuccess (by decide)
      · exact absurd isSuccess failing
    · intro status same
      obtain danger | rfl := seen status same
      · exact .inr (.inl danger)
      · exact .inr (.inr ⟨_, judges, failing⟩)

/-- What `_evaluate_result` makes of a task that has ended is closed if and only if the rules are. -/
theorem failsClosed_iff (evaluates : plugins.evaluation row code = some evaluation)
    (encoded : (evaluateResult true row code evaluation).custom = some given) :
    ∃ status, (evaluateResult true row code evaluation).statusOverride = some status ∧
      (FailsClosed plugins row code (row.moved (exitState code) fields status) ↔
        RulesClosed plugins row code) := by
  obtain ⟨error, rfl⟩ | ⟨own, custom, rfl, judges⟩ := evaluation_decides told evaluates
  · refine ⟨_, verdict_raised unasked error, ?_⟩
    refine iff_of_true ?_ (rulesClosed_raised told evaluates)
    exact failsClosed_kept unasked exits silent (by decide) (by decide) (.inl rfl)
  · by_cases isSuccess : own.tone = "success"
    · have closed := rulesClosed_accepted told judges (.inr isSuccess)
      by_cases clean : code = 0
      · have verdict := @verdict_result row code own custom unasked (fun _ => clean)
        refine ⟨own, congrArg Verdict.statusOverride verdict, iff_of_true ?_ closed⟩
        exact failsClosed_success exits judges isSuccess clean
      · refine ⟨_, verdict_contradicted unasked clean isSuccess, iff_of_true ?_ closed⟩
        exact failsClosed_kept unasked exits silent (by decide) (by decide) (.inl rfl)
    · have verdict := @verdict_result row code own custom unasked
        (fun succeeds => absurd succeeds isSuccess)
      refine ⟨own, congrArg Verdict.statusOverride verdict, ?_⟩
      have given : custom = some given := (congrArg Verdict.custom verdict).symm.trans encoded
      subst given
      by_cases isEmpty : own.key = ""
      · exact failsClosed_empty told unasked exits silent judges isEmpty isSuccess
      · refine iff_of_true ?_ (rulesClosed_accepted told judges (.inl isEmpty))
        exact failsClosed_kept unasked exits silent isEmpty isSuccess (.inr ⟨_, judges⟩)

end Closed

section Ends
variable {config : Config} {s : System} {recovery : Recovery} {moment : Moment} {plugins : Plugins}
  {row : TaskRecord}
variable {code : Int} {status : TaskStatus} {db : Db} {now : String} {fields : List Field}

/-- An expected row takes the status that is chosen for it. -/
theorem transition_overrides {expected : List TaskState} (found : db.getTask row.id = some row)
    (expects : row.state ∈ expected) (state : TaskState) :
    db.transition now row.id expected state fields (some status) =
      (db.move now row.id state fields status, .committed) := by
  have some_expected : expected ≠ [] := List.ne_nil_of_mem expects
  unfold Db.transition
  rw [if_neg some_expected, found]
  exact if_pos expects

theorem getTask_overridden (found : db.getTask row.id = some row) (state : TaskState) :
    (db.move now row.id state fields status).getTask row.id = some (row.moved state fields status) := by
  rw [Db.getTask_move, if_pos rfl, found]
  rfl

/-- The columns of an end with an evaluated result. -/
def endFields (now : String) (code : Int) (bytes : Nat) (seconds : Option Seconds)
    (custom : Object) : List Field :=
  [.endedAt now, .exitCode code, .logSize bytes, .elapsedSeconds seconds, .customJson custom]

/-- How a row is left by the end of a task: untouched, or with the verdict on it. -/
inductive EndsJudged (plugins : Plugins) (row : TaskRecord) (code : Int) :
    Option TaskRecord → Prop where
  | same (dark : ∀ evaluation, plugins.evaluation row code = some evaluation →
      (evaluateResult true row code evaluation).custom = none) : EndsJudged plugins row code (some row)
  | moved (evaluation : Evaluation) (custom : Object) (status : TaskStatus) (now : String) (bytes : Nat)
      (seconds : Option Seconds) (evaluates : plugins.evaluation row code = some evaluation)
      (encoded : (evaluateResult true row code evaluation).custom = some custom)
      (chosen : (evaluateResult true row code evaluation).statusOverride = some status) :
      EndsJudged plugins row code
        (some (row.moved (exitState code) (endFields now code bytes seconds custom) status))

theorem EndsJudged.silent (exits : plugins.evaluation row code = none) :
    EndsJudged plugins row code (some row) := by
  refine .same (fun evaluation same => ?_)
  rw [exits] at same
  cases same

theorem EndsJudged.dark {evaluation : Evaluation}
    (evaluates : plugins.evaluation row code = some evaluation)
    (dark : (evaluateResult true row code evaluation).custom = none) :
    EndsJudged plugins row code (some row) := by
  refine .same (fun other same => ?_)
  rw [evaluates] at same
  cases same
  exact dark

variable (told : Json.isFlag true (Json.get? row.pluginSnapshot "result_evaluator") = true)
variable (unasked : row.interruptStage = none) (live : row.state.active = true)
  (found : s.db.getTask row.id = some row)
include told unasked live

/-- The end of a task fails closed if and only if the rules are closed. -/
theorem EndsJudged.closed {after : Option TaskRecord} (judged : EndsJudged plugins row code after) :
    (∀ new, after = some new → new.state.terminal = true → FailsClosed plugins row code new) ↔
      RulesClosed plugins row code := by
  cases judged with
  | same dark =>
    refine iff_of_true ?_ ?_
    · intro new same ended
      cases same
      rw [TaskState.active_not_terminal live] at ended
      cases ended
    · intro own custom judges isEmpty failing _ _
      have lost := dark _ (judges.evaluation told)
      rw [verdict_result unasked (fun isSuccess => absurd isSuccess failing)] at lost
      cases lost
  | moved evaluation custom status now bytes seconds evaluates encoded chosen =>
    obtain ⟨other, isOther, closed⟩ :=
      @failsClosed_iff plugins row code told (endFields now code bytes seconds custom) evaluation
      custom unasked rfl rfl evaluates encoded
    rw [chosen] at isOther
    cases isOther
    rw [← closed]
    constructor
    · intro all
      refine all _ rfl ?_
      rw [moved_state]
      unfold exitState
      split <;> rfl
    · intro closed new same _
      cases same
      exact closed

include found

theorem waitJudged_judged :
    EndsJudged plugins row code
    (((s.slot row.id).waitJudged moment row.id plugins row code).db.getTask row.id) := by
  unfold Slot.waitJudged
  cases evaluates : plugins.evaluation row code with
  | none =>
    change EndsJudged plugins row code (s.db.getTask row.id)
    rw [found]
    exact .silent evaluates
  | some evaluation =>
    dsimp only
    unfold Slot.waitEvaluated
    generalize isNoted : (if (evaluateResult true row code evaluation).failed = true then _
      else s.slot row.id : Slot) = noted
    have stored : noted.db.getTask row.id = some row := by
      rw [← found, ← isNoted]
      split <;> rfl
    cases encoded : (evaluateResult true row code evaluation).custom with
    | none =>
      change EndsJudged plugins row code (noted.db.getTask row.id)
      rw [stored]
      exact .dark evaluates encoded
    | some custom =>
      obtain ⟨status, chosen, _⟩ := @failsClosed_iff plugins row code told
        (endFields moment.now code moment.logSize (elapsed moment row) custom) evaluation custom
          unasked rfl rfl evaluates encoded
      have moved := @transition_overrides row status noted.db moment.now
        (endFields moment.now code moment.logSize (elapsed moment row) custom)
          [.running, .starting, .stopping] stored
        (wait_expects row.state live) (exitState code)
      dsimp only
      rw [resultState_unasked unasked, chosen]
      change EndsJudged plugins row code (Db.getTask (Db.transition _ _ _ _ _ _ _).1 _)
      unfold endFields at moved
      rw [moved, getTask_overridden stored]
      exact .moved evaluation custom status moment.now _ _ evaluates encoded chosen

theorem recoverJudged_judged :
    EndsJudged plugins row code
    ((s.recoverJudged config recovery plugins row code).db.getTask row.id) := by
  unfold System.recoverJudged
  cases evaluates : plugins.evaluation row code with
  | none =>
    change EndsJudged plugins row code (s.db.getTask row.id)
    rw [found]
    exact .silent evaluates
  | some evaluation =>
    dsimp only
    unfold System.recoverEvaluated
    generalize isNoted : (if (evaluateResult true row code evaluation).failed = true then _
      else s : System) = noted
    have stored : noted.db.getTask row.id = some row := by
      rw [← found, ← isNoted]
      split <;> rfl
    cases encoded : (evaluateResult true row code evaluation).custom with
    | none =>
      change EndsJudged plugins row code (noted.db.getTask row.id)
      rw [stored]
      exact .dark evaluates encoded
    | some custom =>
      obtain ⟨status, chosen, _⟩ := @failsClosed_iff plugins row code told
        (endFields s.wall code (s.moment row.id).logSize (elapsed (s.moment row.id) row) custom)
          evaluation custom unasked rfl rfl
        evaluates encoded
      have moved := @transition_overrides row status noted.db noted.wall
        (endFields s.wall code (s.moment row.id).logSize (elapsed (s.moment row.id) row) custom)
          liveStates stored
        (mem_liveStates.mpr live) (exitState code)
      dsimp only
      rw [resultState_unasked unasked, chosen]
      unfold System.settleRecovered
      unfold endFields at moved
      rw [moved]
      change EndsJudged plugins row code (Db.getTask (Db.move _ _ _ _ _ _) _)
      rw [getTask_overridden stored]
      exact .moved evaluation custom status s.wall _ _ evaluates encoded chosen

/-- The evaluation of a task fails closed, when `_wait` ends it and when `recover` does, if and only
if the exit code rules of its snapshot are closed for a status of the empty key. -/
theorem evaluation_failsClosed (config : Config) (recovery : Recovery) (moment : Moment)
    (plugins : Plugins) (code : Int) :
    ((∀ new, ((s.slot row.id).waitJudged moment row.id plugins row code).db.getTask row.id = some new →
      new.state.terminal = true → FailsClosed plugins row code new) ↔ RulesClosed plugins row code) ∧
    ((∀ new, (s.recoverJudged config recovery plugins row code).db.getTask row.id = some new →
      new.state.terminal = true → FailsClosed plugins row code new) ↔ RulesClosed plugins row code) :=
  ⟨(waitJudged_judged told unasked live found).closed told unasked live,
    (recoverJudged_judged told unasked live found).closed told unasked live⟩

end Ends

section Runs

/-- The snapshot of a plugin with an evaluator and one status. -/
def judgingSnapshot (key tone : String) : Object :=
  [("name", .str "check"), ("digest", .str "d1"), ("result_evaluator", .bool true),
    ("statuses", .obj [(key, .obj [("label", .str "L"), ("tone", .str tone)])])]

/-- That plugin, whose evaluator always names the status. -/
def judging (key : String) : Plugins := [("check", ⟨"d1", some (fun _ => .key key)⟩)]

/-- A running task of the plugin, stored alone. -/
def judgedTask (key tone : String) : TaskRecord :=
  let draft : TaskCreate := TaskCreate.keyed []
  let fresh := TaskRecord.fresh "a" { draft with pluginSnapshot := judgingSnapshot key tone } "2024"
    (coreStatus .running)
  { fresh with state := .running }

def judgedSystem (key tone : String) : System :=
  let fresh := System.initial "boot" "2024" .missing
  { fresh with db := { fresh.db with tasks := (Tasks.empty.insert (judgedTask key tone)).getD .empty } }

theorem judging_judges (key tone : String) (code : Int) :
    Judges (judging key) (judgedTask key tone) code ⟨key, "L", tone, true⟩ (some []) := by
  have defined : Json.get? [(key, Json.obj [("label", .str "L"), ("tone", .str tone)])] key =
      some (.obj [("label", .str "L"), ("tone", .str tone)]) := by
    simp [Json.get?]
  exact .intro "check" _ _ key (some []) .null _ _ rfl rfl rfl rfl (.key key) rfl defined

/-- A status named `ok` is kept, so the task fails closed. -/
theorem evaluation_failsClosed_named : ∃ new,
    (((judgedSystem "ok" "danger").slot "a").waitJudged ⟨"2024", 0, none⟩ "a" (judging "ok")
      (judgedTask "ok" "danger") 0).db.getTask
      "a" = some new ∧ new.state.terminal = true ∧
        FailsClosed (judging "ok") (judgedTask "ok" "danger") 0 new :=
  have closed := @evaluation_failsClosed (judgedSystem "ok" "danger")
    (judgedTask "ok" "danger") rfl rfl rfl rfl (Config.plain .systemd)
    ⟨none, false, [], none, .next⟩ ⟨"2024", 0, none⟩ (judging "ok") 0
  have rules := rulesClosed_accepted rfl (judging_judges "ok" "danger" 0) (.inl (by decide))
  ⟨_, rfl, rfl, closed.1.mpr rules _ rfl rfl⟩

/-- A danger of the empty key is shown as the success of the exit code. -/
theorem evaluation_reopens :
    ¬ ∀ (s : System) (moment : Moment) (plugins : Plugins) (row new : TaskRecord) (code : Int),
    Json.isFlag true (Json.get? row.pluginSnapshot "result_evaluator") = true →
      row.interruptStage = none →
    row.state.active = true → s.db.getTask row.id = some row →
    ((s.slot row.id).waitJudged moment row.id plugins row code).db.getTask row.id = some new →
      new.state.terminal = true →
    FailsClosed plugins row code new := by
  intro always
  let row := judgedTask "" "danger"
  have judged := @waitJudged_judged (judgedSystem "" "danger") ⟨"2024", 0, none⟩
    (judging "") row 0 rfl rfl rfl rfl
  have closed := (judged.closed rfl rfl rfl).mp
    (fun new found ended => always _ _ _ row new 0 rfl rfl rfl rfl found ended)
  have shown : displayStatus row.pluginSnapshot (exitState 0) (some 0) =
    some (coreStatus .succeeded) := by decide
  obtain danger | same := closed _ _ (judging_judges "" "danger" 0) rfl (by decide) _ shown
  · exact absurd danger (by decide)
  · exact absurd same (by decide)

end Runs

end LocalFlow
