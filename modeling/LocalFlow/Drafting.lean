import LocalFlow.Commands
import LocalFlow.Deferral

/-! The way of a draft from a request to the stored task: the validated model, what the plugin
registry and an override of the request change in it, what the service freezes, and what the store
makes of the rest. -/
namespace LocalFlow

/-- The `deferred_values` of a `TaskDraft`. -/
structure DeferredTable where
  values : List (String × DeferredValue)
  distinct : (values.map Prod.fst).Nodup
  named : ∀ entry ∈ values, variableName.Named entry.1.toList
  count : values.length ≤ 32

def DeferredTable.empty : DeferredTable := ⟨[], none_distinct, none_named, none_count⟩

/-- The arguments of `TaskCreate(...)`, or with a table of deferred values those of `TaskDraft(...)`. -/
structure TaskArguments where
  name : String
  workingDirectory : String
  shell : Option String
  /-- `none` where the argument is left out. -/
  source : Option Json
  command : Json
  labels : List String
  mutexKeys : List String
  custom : Object
  template : Option String
  pluginSnapshot : Object
  stop : Option StopStrategy
  deferredValues : Option DeferredTable

/-- A draft on its way to the store. `model_copy` does not validate what it sets, so the command and
the source may be any value. -/
structure Draft where
  name : String
  workingDirectory : String
  source : Json
  command : Json
  labels : List String
  mutexKeys : List String
  custom : Object
  template : Option String
  pluginSnapshot : Object
  stop : Option StopStrategy
  deferredValues : Option DeferredTable

/-- The validator of `shell`. -/
def shellRefused (shell : String) : Bool := shell = "" ∨ strip shell = "" ∨ nul ∈ shell.toList

def Json.isList : Json → Bool
  | .arr _ => true
  | _ => false

/-- `valid_source`, which does not see a default. -/
def sourceField : Option Json → Option Json
  | none => some .null
  | some value => (normalizeSourceFiles value).map argv

/-- Validation of a new `TaskCreate` or `TaskDraft`. -/
def TaskArguments.construct (machine : Machine) (arguments : TaskArguments) : Option Draft :=
  if arguments.shell.any shellRefused then none
  else do
    let source ← sourceField arguments.source
    if arguments.command.isList && (arguments.shell.isSome || source.truthy) then none
    else do
      let command ← normalizeCommand machine arguments.shell arguments.command
      let task ← TaskCreate.validate
        ⟨arguments.name, arguments.workingDirectory, command, arguments.labels, arguments.mutexKeys,
          arguments.custom, arguments.template, arguments.pluginSnapshot, arguments.stop⟩
      some ⟨task.name, task.workingDirectory, source, argv task.command, task.labels,
        task.mutexKeys, task.custom,
        task.template, task.pluginSnapshot, task.stop, arguments.deferredValues⟩

/-- What the registry sets on every draft of one plugin: its name, the snapshot of its instance and
of the values, and its stop strategy. -/
structure PluginStamp where
  template : String
  snapshot : Object
  stop : Option StopStrategy

/-- The source files a task shows. -/
def withSourceFiles (files : List String) (custom : Object) : Object :=
  if files = [] then custom
  else
    Json.assign (Json.assign custom "_source_files" (argv files)) "_source_invocations"
      (.arr (files.map (fun path => .obj [("path", .str path)])))

/-- An overriding value of a string field. A value of another type is refused by `_prepare_draft` or
by the store's validation, before anything is stored. -/
def overriddenText (common : Object) (key old : String) : Option String :=
  match Json.get? common key with
  | none => some old
  | some value => value.str?

def overriddenTexts (common : Object) (key : String) (old : List String) : Option (List String) :=
  match Json.get? common key with
  | none => some old
  | some (.arr items) => items.mapM Json.str?
  | some _ => none

def overriddenObject (common : Object) (key : String) (old : Object) : Option Object :=
  match Json.get? common key with
  | none => some old
  | some value => value.asObject?

/-- An optional field, with the validation of its values. -/
def overriddenOption {α : Type} (read : Json → Option α) (common : Object) (key : String)
    (old : Option α) :
    Option (Option α) :=
  match Json.get? common key with
  | none => some old
  | some .null => some none
  | some value => (read value).map some

/-- Only a `TaskDraft` reads deferred values: an override that is not empty has no `source` to
allocate from. -/
def overriddenDeferred (common : Object) (old : Option DeferredTable) : Option (Option DeferredTable) :=
  match Json.get? common "deferred_values", old with
  | none, old => some old
  | some _, none => some none
  | some value, some _ => if value.truthy then none else some (some .empty)

namespace Draft

/-- `PluginRegistry.expand` for one draft of the plugin; `source` is the `source` of the values. -/
def register (machine : Machine) (source : Json) (stamp : PluginStamp) (draft : Draft) :
    Option Draft := do
  let frozenDirectory ← machine.resolve machine.root draft.workingDirectory
  let command ← freezeCommandWorkingDirectory machine draft.command frozenDirectory source
  some { draft with
    workingDirectory := frozenDirectory
    command, source
    pluginSnapshot := stamp.snapshot
    template := some stamp.template
    stop := stamp.stop }

/-- `draft.model_copy(update=common)`. `stopStrategy` is the validation of a stop strategy. -/
def override (stopStrategy : Json → Option StopStrategy) (common : Object) (draft : Draft) :
    Option Draft := do
  let name ← overriddenText common "name" draft.name
  let workingDirectory ← overriddenText common "working_directory" draft.workingDirectory
  let labels ← overriddenTexts common "labels" draft.labels
  let mutexKeys ← overriddenTexts common "mutex_keys" draft.mutexKeys
  let custom ← overriddenObject common "custom" draft.custom
  let template ← overriddenOption Json.str? common "template" draft.template
  let pluginSnapshot ← overriddenObject common "plugin_snapshot" draft.pluginSnapshot
  let stop ← overriddenOption stopStrategy common "stop" draft.stop
  let deferredValues ← overriddenDeferred common draft.deferredValues
  some ⟨name, workingDirectory, (Json.get? common "source").getD draft.source,
    (Json.get? common "command").getD draft.command, labels, mutexKeys, custom, template,
      pluginSnapshot,
    stop, deferredValues⟩

/-- `TaskService._prepare_draft`. -/
def prepare (machine : Machine) (draft : Draft) : Option Draft := do
  let frozenDirectory ← machine.resolve machine.root draft.workingDirectory
  let sourceFiles ← resolveSourceFiles machine draft.source frozenDirectory
  let command ← freezeCommandWorkingDirectory machine draft.command frozenDirectory draft.source
  some { draft with
    workingDirectory := frozenDirectory
    command
    custom := withSourceFiles sourceFiles draft.custom }

/-- The deferred values the store allocates. -/
def deferred (draft : Draft) : List (String × DeferredValue) :=
  (draft.deferredValues.map DeferredTable.values).getD []

/-- The fields of the draft with another command. -/
def task (draft : Draft) (command : List String) : TaskCreate :=
  ⟨draft.name, draft.workingDirectory, command, draft.labels, draft.mutexKeys, draft.custom,
    draft.template,
    draft.pluginSnapshot, draft.stop⟩

end Draft

/-- What Python iterates over. -/
def Json.items? : Json → Option (List Json)
  | .arr items => some items
  | .str s => some (s.toList.map (fun c => .str (String.singleton c)))
  | .obj fields => some (fields.map (fun field => .str field.1))
  | _ => none

/-- `[str(item) for item in resolver.resolve(command)]`. -/
def resolvedCommand (values : Values) (command : Json) : Option (List String) := do
  let resolved ← values.resolve command
  let items ← resolved.items?
  some (items.map Json.text)

namespace Draft

/-- `Store._materialize_draft_locked` once the integers are allocated. -/
def materialize (machine : Machine) (values : Values) (draft : Draft) : Option TaskCreate :=
  if draft.deferred = [] then do
    let command ← normalizeCommand machine none draft.command
    (draft.task command).validate
  else do
    let name ← Store.resolvedString values draft.name
    let workingDirectory ← Store.resolvedString values draft.workingDirectory
    let command ← resolvedCommand values draft.command
    let labels ← draft.labels.mapM (Store.resolvedString values)
    let mutexKeys ← draft.mutexKeys.mapM (Store.resolvedString values)
    let custom ← values.resolveFields draft.custom
    if custom.any (fun field => values.any (fun entry => entry.1 = field.1)) then none
    else
      TaskCreate.validate
        { draft.task command with
          name, workingDirectory, labels, mutexKeys
          custom := custom ++ values.map (fun entry => (entry.1, Json.int entry.2)) }

end Draft

section Arguments
variable {items : List String} {values : Values}

theorem mapM_argument? : (items.map Json.str).mapM argument? =
    if ∀ item ∈ items, item ≠ "" ∧ nul ∉ item.toList then some items else none := by
  induction items with
  | nil => rfl
  | cons item items ih =>
    rw [List.map_cons, List.mapM_cons, ih]
    simp only [List.forall_mem_cons]
    by_cases fine : item ≠ "" ∧ nul ∉ item.toList
    · have first : argument? (.str item) = some item := if_neg (by simpa using fine)
      by_cases others : ∀ item ∈ items, item ≠ "" ∧ nul ∉ item.toList
      · rw [if_pos others, if_pos ⟨fine, others⟩, first]
        rfl
      · rw [if_neg others, if_neg (fun both => others both.2), first]
        rfl
    · have first : argument? (.str item) = none := if_pos (by
        rw [not_and_or, not_not, not_not] at fine
        exact fine)
      rw [first]
      exact (if_neg (fun both => fine both.1)).symm

theorem resolveItems_texts : (values.resolveItems (items.map .str)).map (List.map Json.text) =
    items.mapM (fun item => (values.resolve (.str item)).map Json.text) := by
  induction items with
  | nil => rfl
  | cons item items ih =>
    rw [List.map_cons, List.mapM_cons, ← ih, Values.resolveItems]
    cases values.resolve (.str item) with
    | none => rfl
    | some first => cases values.resolveItems (items.map .str) <;> rfl

theorem resolvedCommand_argv : resolvedCommand values (argv items) =
    items.mapM (fun item => (values.resolve (.str item)).map Json.text) := by
  rw [← resolveItems_texts, resolvedCommand, argv, Values.resolve]
  cases values.resolveItems (items.map .str) <;> rfl

end Arguments

section Specs
variable {machine : Machine} {items : List String} {draft next : Draft} {values : Values}
  {task : TaskCreate}

theorem argv_injective : Function.Injective argv := by
  intro one two same
  exact List.map_injective_iff.mpr (fun _ _ same => Json.str.inj same) (Json.arr.inj same)

theorem mapM_argument?_argv {given : List Json} (done : given.mapM argument? = some items) :
    Json.arr given = argv items := by
  induction given generalizing items with
  | nil =>
    cases done
    rfl
  | cons item given ih =>
    simp only [List.mapM_cons, Option.pure_def, Option.bind_eq_bind, Option.bind_eq_some_iff,
      Option.some.injEq] at done
    obtain ⟨first, one, others, more, rfl⟩ := done
    have rest := Json.arr.inj (ih more)
    cases item with
    | str s =>
      simp only [argument?, Option.ite_none_left_eq_some, Option.some.injEq] at one
      obtain ⟨_, rfl⟩ := one
      simp [argv, rest]
    | _ => cases one

/-- A command is a string, which is marked, or an argument list, which stays. -/
theorem normalizeCommand_cases {shell : Option String} {value : Json}
    (done : normalizeCommand machine shell value = some items) :
    (∃ userCommand selected, value = .str userCommand ∧
      items = [selected, "-ic", shellCwdSentinel ++ userCommand]) ∨ value = argv items := by
  cases value with
  | str userCommand =>
    simp only [normalizeCommand, Option.ite_none_left_eq_some, Option.some.injEq] at done
    exact .inl ⟨userCommand, _, rfl, done.2.symm⟩
  | arr given =>
    simp only [normalizeCommand, Option.ite_none_left_eq_some] at done
    exact .inr (mapM_argument?_argv done.2)
  | _ => cases done

theorem freeze_argv {workingDirectory : String} {source frozen : Json}
    (done : freezeCommandWorkingDirectory machine (argv items) workingDirectory source = some frozen) :
    (¬ Marked items ∧ frozen = argv items) ∨ ∃ shell userCommand rest files,
      items = shell :: "-ic" :: (shellCwdSentinel ++ userCommand) :: rest ∧
      resolveSourceFiles machine source workingDirectory = some files ∧
      frozen = argv (shell :: "-ic" ::
        wrapper (baseName shell) files workingDirectory userCommand :: rest) := by
  by_cases marked : Marked items
  · obtain ⟨shell, userCommand, rest, rfl⟩ := marked
    rw [freeze_marked] at done
    obtain ⟨files, resolves, rfl⟩ := Option.map_eq_some_iff.mp done
    exact .inr ⟨shell, userCommand, rest, files, rfl, resolves, rfl⟩
  · rw [freeze_unmarked marked] at done
    exact .inl ⟨marked, (Option.some.inj done).symm⟩

/-- What validation of a new draft keeps and what it makes of the command. -/
structure Constructed (machine : Machine) (arguments : TaskArguments) (draft : Draft) : Prop where
  name : draft.name = arguments.name
  workingDirectory : draft.workingDirectory = arguments.workingDirectory
  command : ∃ items, normalizeCommand machine arguments.shell arguments.command = some items ∧
    draft.command = argv items
  source : sourceField arguments.source = some draft.source
  labels : draft.labels = arguments.labels.map strip
  mutexKeys : draft.mutexKeys = arguments.mutexKeys.map strip
  custom : draft.custom = arguments.custom
  deferredValues : draft.deferredValues = arguments.deferredValues

theorem constructed {arguments : TaskArguments} (done : arguments.construct machine = some draft) :
    Constructed machine arguments draft := by
  rw [TaskArguments.construct, Option.ite_none_left_eq_some] at done
  obtain ⟨source, sourced, done⟩ := Option.bind_eq_some_iff.mp done.2
  rw [Option.ite_none_left_eq_some] at done
  obtain ⟨items, normalized, done⟩ := Option.bind_eq_some_iff.mp done.2
  obtain ⟨task, valid, done⟩ := Option.bind_eq_some_iff.mp done
  obtain rfl := Store.validate_fields valid
  cases done
  exact ⟨rfl, rfl, ⟨items, normalized, rfl⟩, sourced, rfl, rfl, rfl, rfl⟩

/-- Freezing a directory and a command: what `register` and `prepare` have in common. -/
structure Refrozen (machine : Machine) (source : Json) (draft next : Draft) : Prop where
  resolved : machine.resolve machine.root draft.workingDirectory = some next.workingDirectory
  command : freezeCommandWorkingDirectory machine draft.command next.workingDirectory source =
    some next.command
  name : next.name = draft.name
  labels : next.labels = draft.labels
  mutexKeys : next.mutexKeys = draft.mutexKeys
  deferredValues : next.deferredValues = draft.deferredValues

theorem registered {source : Json} {stamp : PluginStamp}
    (done : draft.register machine source stamp = some next) :
    Refrozen machine source draft next := by
  obtain ⟨directory, resolved, done⟩ := Option.bind_eq_some_iff.mp done
  obtain ⟨command, frozen, done⟩ := Option.bind_eq_some_iff.mp done
  cases done
  exact ⟨resolved, frozen, rfl, rfl, rfl, rfl⟩

theorem prepared (done : draft.prepare machine = some next) :
    Refrozen machine draft.source draft next := by
  obtain ⟨directory, resolved, done⟩ := Option.bind_eq_some_iff.mp done
  obtain ⟨files, _, done⟩ := Option.bind_eq_some_iff.mp done
  obtain ⟨command, frozen, done⟩ := Option.bind_eq_some_iff.mp done
  cases done
  exact ⟨resolved, frozen, rfl, rfl, rfl, rfl⟩

/-- What an override leaves of the command, the directory and the deferred values. -/
structure Overridden (common : Object) (draft next : Draft) : Prop where
  workingDirectory : next.workingDirectory =
    ((Json.get? common "working_directory").bind Json.str?).getD draft.workingDirectory
  command : next.command = (Json.get? common "command").getD draft.command
  deferred : next.deferred = if (Json.get? common "deferred_values").isSome then [] else draft.deferred

theorem overriddenText_getD {common : Object} {key old new : String}
    (done : overriddenText common key old = some new) :
    new = ((Json.get? common key).bind Json.str?).getD old := by
  rw [overriddenText] at done
  split at done
  · rename_i absent
    simpa [absent] using (Option.some.inj done).symm
  · rename_i value present
    simp [present, done]

theorem overridden {stopStrategy : Json → Option StopStrategy} {common : Object}
    (done : draft.override stopStrategy common = some next) : Overridden common draft next := by
  obtain ⟨name, _, done⟩ := Option.bind_eq_some_iff.mp done
  obtain ⟨workingDirectory, directed, done⟩ := Option.bind_eq_some_iff.mp done
  obtain ⟨labels, _, done⟩ := Option.bind_eq_some_iff.mp done
  obtain ⟨mutexKeys, _, done⟩ := Option.bind_eq_some_iff.mp done
  obtain ⟨custom, _, done⟩ := Option.bind_eq_some_iff.mp done
  obtain ⟨template, _, done⟩ := Option.bind_eq_some_iff.mp done
  obtain ⟨pluginSnapshot, _, done⟩ := Option.bind_eq_some_iff.mp done
  obtain ⟨stop, _, done⟩ := Option.bind_eq_some_iff.mp done
  obtain ⟨deferredValues, table, done⟩ := Option.bind_eq_some_iff.mp done
  cases done
  refine ⟨overriddenText_getD directed, rfl, ?_⟩
  unfold overriddenDeferred at table
  cases asked : Json.get? common "deferred_values" with
  | none =>
    simp only [asked, Option.some.injEq] at table
    simp [Draft.deferred, table]
  | some value =>
    cases own : draft.deferredValues with
    | none =>
      simp only [asked, own, Option.some.injEq] at table
      simp [Draft.deferred, ← table]
    | some old =>
      simp only [asked, own, Option.ite_none_left_eq_some, Option.some.injEq] at table
      simp [Draft.deferred, ← table.2, DeferredTable.empty]

/-- What the store makes of a draft: nothing but validation where no value is deferred. -/
inductive Materialized (machine : Machine) (values : Values) (draft : Draft) (task : TaskCreate) :
    Prop where
  | plain : draft.deferred = [] → normalizeCommand machine none draft.command = some task.command →
      task.name = draft.name → task.workingDirectory = draft.workingDirectory →
      task.labels = draft.labels.map strip → task.mutexKeys = draft.mutexKeys.map strip →
      task.custom = draft.custom → Materialized machine values draft task
  | deferred (labels mutexKeys : List String) (custom : Object) : draft.deferred ≠ [] →
      resolvedCommand values draft.command = some task.command →
      Store.resolvedString values draft.name = some task.name →
      Store.resolvedString values draft.workingDirectory = some task.workingDirectory →
      draft.labels.mapM (Store.resolvedString values) = some labels → task.labels = labels.map strip →
      draft.mutexKeys.mapM (Store.resolvedString values) = some mutexKeys →
        task.mutexKeys = mutexKeys.map strip →
      values.resolveFields draft.custom = some custom →
      task.custom = custom ++ values.map (fun entry => (entry.1, Json.int entry.2)) →
      Materialized machine values draft task

theorem materialized (done : draft.materialize machine values = some task) :
    Materialized machine values draft task := by
  rw [Draft.materialize] at done
  split at done
  · rename_i none
    obtain ⟨command, normalized, done⟩ := Option.bind_eq_some_iff.mp done
    obtain rfl := Store.validate_fields done
    exact .plain none normalized rfl rfl rfl rfl rfl
  · rename_i some
    obtain ⟨name, named, done⟩ := Option.bind_eq_some_iff.mp done
    obtain ⟨workingDirectory, directed, done⟩ := Option.bind_eq_some_iff.mp done
    obtain ⟨command, commanded, done⟩ := Option.bind_eq_some_iff.mp done
    obtain ⟨labels, labelled, done⟩ := Option.bind_eq_some_iff.mp done
    obtain ⟨mutexKeys, keyed, done⟩ := Option.bind_eq_some_iff.mp done
    obtain ⟨custom, customized, done⟩ := Option.bind_eq_some_iff.mp done
    rw [Option.ite_none_left_eq_some] at done
    obtain rfl := Store.validate_fields done.2
    exact .deferred labels mutexKeys custom some commanded named directed labelled rfl keyed rfl
      customized rfl

end Specs

end LocalFlow
