import LocalFlow.Freezing
import LocalFlow.Validation

/-! What a plan shows and what submitting the same configuration stores. Planning ends before the
store puts deferred values in place and validates again, so a plan may show tasks the store
refuses. -/
namespace LocalFlow

/-- What the plugin makes of a configuration and the inputs of a run: the `source` of its values and
the drafts it constructs. -/
structure Expansion where
  source : Json
  stamp : PluginStamp
  drafts : List TaskArguments

/-- `PluginRegistry.expand` after the plugin's own `expand`. -/
def Expansion.planned (machine : Machine) (expansion : Expansion) : Option (List Draft) :=
  expansion.drafts.mapM (fun arguments => do
    let draft ← arguments.construct machine
    draft.register machine expansion.source expansion.stamp)

/-- An item of `_plan`; its place in the list is its `sequence`. -/
structure PlanItem where
  name : String
  workingDirectory : String
  command : Json
  labels : List String
  mutexKeys : List String
  custom : Object
  deferredValues : List (String × DeferredValue)

def planItem (draft : Draft) : PlanItem :=
  ⟨draft.name, draft.workingDirectory, draft.command, draft.labels, draft.mutexKeys, draft.custom,
    draft.deferred⟩

section Endpoints
variable (machine : Machine) (expand : Object → Object → Option Expansion)
  (configuration inputs : Object)

/-- `POST /runs/plan`. -/
def plan : Option (List PlanItem) := do
  let expansion ← expand configuration inputs
  let drafts ← expansion.planned machine
  some (drafts.map planItem)

/-- `POST /runs`, with the integers the store allocates for each draft. -/
def submitRun (integers : List Values) : Option (List TaskCreate) := do
  let expansion ← expand configuration inputs
  let drafts ← expansion.planned machine
  (drafts.zip integers).mapM (fun entry => do
    let prepared ← entry.1.prepare machine
    prepared.materialize machine entry.2)

end Endpoints

mutual
/-- The strings in a value, at any depth. -/
def Json.strings : Json → List String
  | .str s => [s]
  | .arr items => itemStrings items
  | .obj fields => fieldStrings fields
  | _ => []

def Json.itemStrings : List Json → List String
  | [] => []
  | item :: rest => item.strings ++ itemStrings rest

def Json.fieldStrings : List (String × Json) → List String
  | [] => []
  | (_, value) :: rest => value.strings ++ fieldStrings rest
end

namespace PlanItem

def effective (item : PlanItem) (values : Values) : Option Values :=
  if item.deferredValues = [] then none else some values

/-- Deferred values in place in a dictionary. -/
def PlacedFields : Option Values → Object → Object → Prop
  | none, fields, placed => placed = fields
  | some values, fields, placed => values.FilledFields fields placed

/-- The fields of a stored task that the plan shows as they are, up to the integers. -/
structure Shows (item : PlanItem) (values : Values) (task : TaskCreate) : Prop where
  name : Placed (item.effective values) item.name task.name
  workingDirectory : Placed (item.effective values) item.workingDirectory task.workingDirectory
  command : ∃ arguments, item.command = argv arguments ∧
    List.Forall₂ (Placed (item.effective values)) arguments task.command
  labels : List.Forall₂ (Placed (item.effective values)) item.labels task.labels
  mutexKeys : List.Forall₂ (Placed (item.effective values)) item.mutexKeys task.mutexKeys

/-- The item with the snapshot of its source files in its custom data. -/
def sourced (item : PlanItem) (files : List String) : PlanItem :=
  { item with custom := withSourceFiles files item.custom }

/-- The stored task is the planned one, with the integers in place in its custom data and after it. -/
structure Agrees (item : PlanItem) (values : Values) (task : TaskCreate) : Prop
    extends item.Shows values task where
  custom : ∃ placed, PlacedFields (item.effective values) item.custom placed ∧
    task.custom = placed ++ values.map (fun entry => (entry.1, Json.int entry.2))

/-- The same with the planned custom data left as it is. -/
structure AgreesVerbatim (item : PlanItem) (values : Values) (task : TaskCreate) : Prop
    extends item.Shows values task where
  custom : task.custom = item.custom ++ values.map (fun entry => (entry.1, Json.int entry.2))

/-- Every string of the item but those of its custom data. -/
def texts (item : PlanItem) : List String :=
  item.name :: item.workingDirectory :: item.command.strings ++ item.labels ++ item.mutexKeys

/-- The store can put the integers in place and the outcome is a task again. -/
structure Fillable (item : PlanItem) (values : Values) : Prop where
  known : ∀ text ∈ item.texts ++ Json.fieldStrings item.custom,
    ∀ name, Values.Mentions name text → ∃ n, values.get? name = some n
  partly : ∀ text ∈ item.name :: item.labels ++ item.mutexKeys, ∀ name, ¬ Values.Refers name text
  name : ∀ filled, values.Fills item.name filled → filled.length ≤ 200
  labels : ∀ filled, List.Forall₂ values.Fills item.labels filled → UniqueNames filled
  mutexKeys : ∀ filled, List.Forall₂ values.Fills item.mutexKeys filled → UniqueNames filled
  fresh : ∀ field ∈ item.custom, values.get? field.1 = none

end PlanItem

section Statements
variable (machine : Machine) (expand : Object → Object → Option Expansion)
  (configuration inputs : Object)

/-- Submitting succeeds and stores, in the order of the plan, tasks that stand in `R` to the items
with their source files. -/
def SubmitsAs (R : PlanItem → Values → TaskCreate → Prop) (source : Json) (items : List PlanItem)
    (integers : List Values) : Prop :=
  ∃ tasks, submitRun machine expand configuration inputs integers = some tasks ∧
    List.Forall₂ (fun entry task => ∃ files,
      resolveSourceFiles machine source entry.1.workingDirectory = some files ∧
      R (entry.1.sourced files) entry.2 task) (items.zip integers) tasks

/-- The source files of the item resolve, and where values are deferred they can be put in place. -/
def Submittable (source : Json) (item : PlanItem) (values : Values) (files : List String) : Prop :=
  resolveSourceFiles machine source item.workingDirectory = some files ∧
    (item.deferredValues ≠ [] → (item.sourced files).Fillable values)

/-- Nothing in the custom data of the item is a reference, or nothing is deferred. -/
def CustomPlain (item : PlanItem) (files : List String) : Prop :=
  item.deferredValues ≠ [] →
    ∀ text ∈ Json.fieldStrings (item.sourced files).custom, ∀ name, ¬ Values.Mentions name text

end Statements

section Clean
variable {text separator shellName workingDirectory userCommand : String} {items files : List String}

/-- No null character, so a text can be an argument. -/
def Clean (text : String) : Prop := nul ∉ text.toList

instance (text : String) : Decidable (Clean text) := inferInstanceAs (Decidable (nul ∉ text.toList))

theorem Clean.append {other : String} (one : Clean text) (two : Clean other) :
    Clean (text ++ other) := by
  unfold Clean
  rw [String.toList_append, List.mem_append, not_or]
  exact ⟨one, two⟩

theorem clean_joinWith (separate : Clean separator) (each : ∀ item ∈ items, Clean item) :
    Clean (joinWith separator items) := by
  induction items with
  | nil => exact List.not_mem_nil
  | cons item items ih =>
    rw [List.forall_mem_cons] at each
    cases items with
    | nil => exact each.1
    | cons second items => exact (each.1.append separate).append (ih each.2)

theorem clean_escape {chars : List Char} (clean : nul ∉ chars) : nul ∉ ShellWord.escape chars := by
  intro member
  obtain ⟨c, isChar, escaped⟩ := List.mem_flatMap.mp member
  unfold ShellWord.escaped at escaped
  split at escaped
  · exact absurd escaped (by decide)
  · rw [List.mem_singleton] at escaped
    exact clean (escaped ▸ isChar)

theorem clean_quote (clean : Clean text) : Clean (shlexQuote text) := by
  unfold Clean shlexQuote ShellWord.quote
  rw [String.toList_ofList]
  split
  · exact clean
  · intro member
    rw [List.mem_append, List.mem_cons, List.mem_singleton] at member
    obtain (first | inner) | last := member
    · exact absurd first (by decide)
    · exact clean_escape clean inner
    · exact absurd last (by decide)

theorem clean_sourceFileCommand (clean : Clean text) : Clean (sourceFileCommand text shellName) := by
  have keyword : ∀ word : String, Clean word →
    Clean (joinWith " " [shlexQuote word, shlexQuote text]) := by
    intro word cleanWord
    apply clean_joinWith (by decide)
    rw [List.forall_mem_cons, List.forall_mem_singleton]
    exact ⟨clean_quote cleanWord, clean_quote clean⟩
  unfold sourceFileCommand
  split
  · exact keyword _ (by decide)
  · exact keyword _ (by decide)

/-- Lines that source each file in turn, with fixed lines after each. -/
theorem clean_lines {fixed : List String} (constant : ∀ line ∈ fixed, Clean line)
    (each : ∀ file ∈ files, Clean file) :
    ∀ line ∈ files.flatMap (fun path => sourceFileCommand path shellName :: fixed), Clean line := by
  intro line member
  obtain ⟨path, isFile, isLine⟩ := List.mem_flatMap.mp member
  rcases List.mem_cons.mp isLine with rfl | fixed
  · exact clean_sourceFileCommand (each path isFile)
  · exact constant line fixed

theorem clean_sourceLines (each : ∀ file ∈ files, Clean file) :
    ∀ line ∈ sourceLines shellName files, Clean line := by
  unfold sourceLines
  split
  · rw [List.forall_mem_cons]
    exact ⟨by decide, clean_lines (by decide) each⟩
  · split
    · exact clean_lines (by decide) each
    · rw [List.forall_mem_append]
      refine ⟨?_, clean_lines (by decide) each⟩
      split
      · decide
      · simp

theorem clean_wrapper (directory : Clean workingDirectory) (each : ∀ file ∈ files, Clean file)
    (user : Clean userCommand) : Clean (wrapper shellName files workingDirectory userCommand) := by
  have enters : Clean ("cd " ++ shlexQuote workingDirectory) :=
    Clean.append (by decide) (clean_quote directory)
  refine (enters.append (by decide)).append ?_
  unfold wrappedBody
  split
  · exact user
  · refine Clean.append (Clean.append (clean_joinWith (by decide) ?_) (by decide)) user
    rw [List.forall_mem_append, List.forall_mem_append, List.forall_mem_singleton]
    refine ⟨⟨clean_sourceLines each, enters⟩, ?_⟩
    unfold enterCheck
    split
    · decide
    · simp

end Clean

/-- A list of names as a validated draft holds it. -/
structure NormalNames (limit : Nat) (items : List String) : Prop where
  count : items.length ≤ limit
  unique : UniqueNames items
  trimmed : ∀ item ∈ items, Trimmed item.toList

/-- An argument list a task may have. -/
structure Arguments (items : List String) : Prop where
  nonempty : items ≠ []
  each : ∀ item ∈ items, item ≠ "" ∧ Clean item

/-- What holds of a validated draft. -/
structure Normal (draft : Draft) (items : List String) : Prop where
  command : draft.command = argv items
  arguments : Arguments items
  name : 1 ≤ draft.name.length ∧ draft.name.length ≤ 200
  labels : NormalNames 64 draft.labels
  mutexKeys : NormalNames 32 draft.mutexKeys

/-- A draft that a plan shows. -/
structure Planned (machine : Machine) (source : Json) (draft : Draft) (items : List String) : Prop
    extends Normal draft items where
  unmarked : ¬ Marked items
  isSource : draft.source = source
  resolved : machine.resolve machine.root draft.workingDirectory = some draft.workingDirectory

section Plans
variable {machine : Machine} {source : Json} {draft next : Draft} {items files : List String}
  {values : Values}
  {task : TaskCreate}

theorem normalNames_strip {limit : Nat} {names : List String} (count : names.length ≤ limit)
    (unique : UniqueNames (names.map strip)) : NormalNames limit (names.map strip) where
  count := by rwa [List.length_map]
  unique := unique
  trimmed := by
    rw [List.forall_mem_map]
    exact fun name _ => trimmed_strip name

theorem construct_normal {arguments : TaskArguments} (done : arguments.construct machine = some draft) :
    ∃ items, Normal draft items := by
  rw [TaskArguments.construct, Option.ite_none_left_eq_some] at done
  obtain ⟨source, _, done⟩ := Option.bind_eq_some_iff.mp done.2
  rw [Option.ite_none_left_eq_some] at done
  obtain ⟨items, _, done⟩ := Option.bind_eq_some_iff.mp done.2
  obtain ⟨task, validates, done⟩ := Option.bind_eq_some_iff.mp done
  obtain ⟨valid, rfl⟩ := validate_iff.mp validates
  cases done
  exact ⟨items, rfl, ⟨valid.command, valid.arguments⟩, valid.name,
    normalNames_strip valid.labels.1 valid.labels.2,
      normalNames_strip valid.mutexKeys.1 valid.mutexKeys.2⟩

theorem resolveSourceFiles_clean {workingDirectory : String}
    (done : resolveSourceFiles machine source workingDirectory = some files) :
    ∀ file ∈ files, Clean file := by
  obtain ⟨given, _, done⟩ := Option.bind_eq_some_iff.mp done
  have each := Calls.mapM_iff.mp done
  clear * - each
  induction each with
  | nil => simp
  | cons one _ ih =>
    rw [List.forall_mem_cons]
    exact ⟨(machine.absolute _ _ _ one).clean, ih⟩

/-- Freezing makes an argument list of an argument list, and a marked one is not made again. -/
theorem freeze_arguments {workingDirectory : String} {frozen : Json} (arguments : Arguments items)
    (absolute : Absolute workingDirectory)
    (done : freezeCommandWorkingDirectory machine (argv items) workingDirectory source = some frozen) :
    ∃ others, frozen = argv others ∧ ¬ Marked others ∧ Arguments others := by
  obtain ⟨unmarked, rfl⟩ | ⟨shell, userCommand, rest, files, rfl, resolves, rfl⟩ := freeze_argv done
  · exact ⟨items, rfl, unmarked, arguments⟩
  · refine ⟨_, rfl, wrapper_unmarked, List.cons_ne_nil _ _, ?_⟩
    have each := arguments.each
    simp only [List.forall_mem_cons] at each ⊢
    obtain ⟨shellFine, flagFine, script, rest⟩ := each
    refine ⟨shellFine, flagFine, ⟨fun empty => ?_, ?_⟩, rest⟩
    · have head := wrapper_head (baseName shell) files workingDirectory userCommand
      rw [empty] at head
      cases head
    · refine clean_wrapper absolute.clean (resolveSourceFiles_clean resolves)
        (fun member => script.2 ?_)
      rw [String.toList_append]
      exact List.mem_append_right _ member

theorem planned_of {expansion : Expansion} {arguments : TaskArguments}
    (done : (do
      let draft ← arguments.construct machine
      draft.register machine expansion.source expansion.stamp) = some next) :
    ∃ items, Planned machine expansion.source next items := by
  obtain ⟨draft, built, done⟩ := Option.bind_eq_some_iff.mp done
  obtain ⟨items, normal⟩ := construct_normal built
  obtain ⟨directory, resolved, done⟩ := Option.bind_eq_some_iff.mp done
  obtain ⟨command, frozen, done⟩ := Option.bind_eq_some_iff.mp done
  cases done
  rw [normal.command] at frozen
  obtain ⟨others, rfl, unmarked, arguments⟩ :=
    freeze_arguments normal.arguments (machine.absolute _ _ _ resolved) frozen
  exact ⟨others, ⟨rfl, arguments, normal.name, normal.labels, normal.mutexKeys⟩, unmarked, rfl,
    machine.resolved _ _ _ _ resolved⟩

/-- Preparing a planned draft adds the snapshot of its source files and changes nothing else. -/
theorem prepare_planned (planned : Planned machine source draft items) : draft.prepare machine =
    (resolveSourceFiles machine source draft.workingDirectory).map
      (fun files => { draft with custom := withSourceFiles files draft.custom }) := by
  have frozen : freezeCommandWorkingDirectory machine draft.command draft.workingDirectory source =
      some draft.command := by
    rw [planned.command]
    exact freeze_unmarked planned.unmarked
  simp only [Draft.prepare, planned.resolved, planned.isSource, frozen, Option.bind_eq_bind,
    Option.bind_some]
  cases resolveSourceFiles machine source draft.workingDirectory <;> rfl

end Plans

section Json
variable {values : Values}

mutual
/-- A value resolves exactly when every reference in it has an integer. -/
theorem exists_resolve_iff : ∀ json : Json, (∃ out, values.resolve json = some out) ↔
    ∀ text ∈ json.strings, ∀ name, Values.Mentions name text → ∃ n, values.get? name = some n
  | .null => ⟨fun _ => by simp [Json.strings], fun _ => ⟨.null, rfl⟩⟩
  | .bool b => ⟨fun _ => by simp [Json.strings], fun _ => ⟨.bool b, rfl⟩⟩
  | .int n => ⟨fun _ => by simp [Json.strings], fun _ => ⟨.int n, rfl⟩⟩
  | .float repr => ⟨fun _ => by simp [Json.strings], fun _ => ⟨.float repr, rfl⟩⟩
  | .str s => by
    rw [Json.strings, List.forall_mem_singleton, ← Values.exists_fills_iff]
    constructor
    · rintro ⟨out, done⟩
      exact ⟨out.text, Values.resolvedItem_iff.mp (by rw [done]; rfl)⟩
    · rintro ⟨filled, fills⟩
      obtain ⟨out, done, _⟩ := Option.map_eq_some_iff.mp (Values.resolvedItem_iff.mpr fills)
      exact ⟨out, done⟩
  | .arr items => by
    rw [Json.strings, ← exists_resolveItems_iff items, Values.resolve]
    simp
  | .obj fields => by
    rw [Json.strings, ← exists_resolveFields_iff fields, Values.resolve]
    simp

theorem exists_resolveItems_iff : ∀ items : List Json, (∃ out, values.resolveItems items = some out) ↔
    ∀ text ∈ Json.itemStrings items, ∀ name, Values.Mentions name text → ∃ n, values.get? name = some n
  | [] => ⟨fun _ => by simp [Json.itemStrings], fun _ => ⟨[], rfl⟩⟩
  | item :: rest => by
    rw [Json.itemStrings, List.forall_mem_append, ← exists_resolve_iff item,
      ← exists_resolveItems_iff rest,
      Values.resolveItems]
    simp only [Option.bind_eq_bind, Option.bind_eq_some_iff, Option.some.injEq]
    constructor
    · rintro ⟨_, first, one, others, more, _⟩
      exact ⟨⟨first, one⟩, others, more⟩
    · rintro ⟨⟨first, one⟩, others, more⟩
      exact ⟨_, first, one, others, more, rfl⟩

theorem exists_resolveFields_iff : ∀ fields :
    List (String × Json), (∃ out, values.resolveFields fields = some out) ↔
    ∀ text ∈ Json.fieldStrings fields, ∀ name, Values.Mentions name text →
      ∃ n, values.get? name = some n
  | [] => ⟨fun _ => by simp [Json.fieldStrings], fun _ => ⟨[], rfl⟩⟩
  | (key, value) :: rest => by
    rw [Json.fieldStrings, List.forall_mem_append, ← exists_resolve_iff value,
      ← exists_resolveFields_iff rest,
      Values.resolveFields]
    simp only [Option.bind_eq_bind, Option.bind_eq_some_iff, Option.some.injEq]
    constructor
    · rintro ⟨_, first, one, others, more, _⟩
      exact ⟨⟨first, one⟩, others, more⟩
    · rintro ⟨⟨first, one⟩, others, more⟩
      exact ⟨_, first, one, others, more, rfl⟩
end

theorem filledFields_keys : ∀ {fields filled : Object}, values.FilledFields fields filled →
    filled.map Prod.fst = fields.map Prod.fst
  | _, _, .nil => rfl
  | _, _, .cons _ rest => by simp [filledFields_keys rest]

mutual
/-- A value stays the same exactly when nothing in it is a reference. -/
theorem filled_self_iff : ∀ json : Json, values.Filled json json ↔
    ∀ text ∈ json.strings, ∀ name, ¬ Values.Mentions name text
  | .null => ⟨fun _ => by simp [Json.strings], fun _ => .null⟩
  | .bool b => ⟨fun _ => by simp [Json.strings], fun _ => .bool b⟩
  | .int n => ⟨fun _ => by simp [Json.strings], fun _ => .int n⟩
  | .float repr => ⟨fun _ => by simp [Json.strings], fun _ => .float repr⟩
  | .str s => by
    rw [Json.strings, List.forall_mem_singleton]
    constructor
    · intro filled name mentions
      cases filled with
      | text _ fills => exact (References.fills_self_iff Values.decimal_plain).mp fills _ mentions
    · intro absent
      refine .text (fun name refers => absent name (References.Begins.mentions refers)) ?_
      refine (References.fills_self_iff Values.decimal_plain).mpr (fun name mentions => ?_)
      exact absent (String.ofList name) (by simpa [Values.Mentions] using mentions)
  | .arr items => by
    rw [Json.strings, ← filledItems_self_iff items]
    constructor
    · intro filled
      cases filled with
      | arr each => exact each
    · exact .arr
  | .obj fields => by
    rw [Json.strings, ← filledFields_self_iff fields]
    constructor
    · intro filled
      cases filled with
      | obj each => exact each
    · exact .obj

theorem filledItems_self_iff : ∀ items : List Json, values.FilledItems items items ↔
    ∀ text ∈ Json.itemStrings items, ∀ name, ¬ Values.Mentions name text
  | [] => ⟨fun _ => by simp [Json.itemStrings], fun _ => .nil⟩
  | item :: rest => by
    rw [Json.itemStrings, List.forall_mem_append, ← filled_self_iff item, ← filledItems_self_iff rest]
    constructor
    · intro each
      cases each with
      | cons one more => exact ⟨one, more⟩
    · rintro ⟨one, more⟩
      exact .cons one more

theorem filledFields_self_iff : ∀ fields : List (String × Json), values.FilledFields fields fields ↔
    ∀ text ∈ Json.fieldStrings fields, ∀ name, ¬ Values.Mentions name text
  | [] => ⟨fun _ => by simp [Json.fieldStrings], fun _ => .nil⟩
  | (key, value) :: rest => by
    rw [Json.fieldStrings, List.forall_mem_append, ← filled_self_iff value,
      ← filledFields_self_iff rest]
    constructor
    · intro each
      cases each with
      | cons one more => exact ⟨one, more⟩
    · rintro ⟨one, more⟩
      exact .cons one more
end

mutual
/-- There is one way to put the integers in place. -/
theorem filled_unique :
    ∀ {json one two : Json}, values.Filled json one → values.Filled json two → one = two
  | _, _, _, .null, .null => rfl
  | _, _, _, .bool _, .bool _ => rfl
  | _, _, _, .int _, .int _ => rfl
  | _, _, _, .float _, .float _ => rfl
  | .str s, _, _, one, two => by
    cases one with
    | reference refers known =>
      cases two with
      | reference again found =>
        have same := Values.wholeReference?_iff.mpr refers
        rw [Values.wholeReference?_iff.mpr again] at same
        cases same
        rw [known] at found
        rw [Option.some.inj found]
      | text partly => exact absurd refers (partly _)
    | text partly fills =>
      cases two with
      | reference refers => exact absurd refers (partly _)
      | text _ again => rw [String.toList_inj.mp
          (References.Fills.unique variableName_closes fills again)]
  | _, _, _, .arr one, .arr two => by rw [filledItems_unique one two]
  | _, _, _, .obj one, .obj two => by rw [filledFields_unique one two]

theorem filledItems_unique : ∀ {items one two : List Json}, values.FilledItems items one →
    values.FilledItems items two → one = two
  | _, _, _, .nil, .nil => rfl
  | _, _, _, .cons one others,
      .cons two more => by rw [filled_unique one two, filledItems_unique others more]

theorem filledFields_unique : ∀ {fields one two : Object}, values.FilledFields fields one →
    values.FilledFields fields two → one = two
  | _, _, _, .nil, .nil => rfl
  | _, _, _, .cons one others,
      .cons two more => by rw [filled_unique one two, filledFields_unique others more]
end

end Json

section Filling
variable {machine : Machine} {draft : Draft} {items files : List String} {values : Values}
  {task : TaskCreate}

theorem itemStrings_argv (items : List String) : (argv items).strings = items := by
  have each : ∀ texts : List String, Json.itemStrings (texts.map .str) = texts := by
    intro texts
    induction texts with
    | nil => rfl
    | cons text texts ih => rw [List.map_cons, Json.itemStrings, ih]; rfl
  exact each items

theorem absolute_partly {path : String} (absolute : Absolute path) (name : String) :
    ¬ Values.Refers name path := by
  intro refers
  have head := absolute.head
  rw [refers.text] at head
  simp at head

/-- The statements of materialization where values are deferred. -/
theorem materialize_deferred (some : draft.deferred ≠ []) :
    draft.materialize machine values = .some task ↔
    ∃ name workingDirectory command labels mutexKeys custom,
      Store.resolvedString values draft.name = .some name ∧
      Store.resolvedString values draft.workingDirectory = .some workingDirectory ∧
      resolvedCommand values draft.command = .some command ∧
      draft.labels.mapM (Store.resolvedString values) = .some labels ∧
      draft.mutexKeys.mapM (Store.resolvedString values) = .some mutexKeys ∧
      values.resolveFields draft.custom = .some custom ∧
      (∀ field ∈ custom, values.get? field.1 = none) ∧
      TaskCreate.validate { draft.task command with
        name, workingDirectory, labels, mutexKeys
        custom := custom ++ values.map (fun entry => (entry.1, Json.int entry.2)) } = .some task := by
  have absent : ∀ custom : Object,
    (¬ custom.any (fun field => values.any (fun entry => entry.1 = field.1)) = true) ↔
      ∀ field ∈ custom, values.get? field.1 = none := by
    intro custom
    rw [List.any_eq_true, not_exists]
    simp only [not_and, Values.get?, List.lookup_eq_none_iff, List.any_eq_true, not_exists,
      decide_eq_true_eq,
      bne_iff_ne]
    exact forall₂_congr (fun field _ => forall₂_congr (fun entry _ => ne_comm))
  rw [Draft.materialize, if_neg some]
  simp only [Option.bind_eq_bind, Option.bind_eq_some_iff, Option.ite_none_left_eq_some, absent]
  constructor
  · rintro ⟨name, one, directory, two, command, three, labels, four, keys, five, custom, six, rest⟩
    exact ⟨name, directory, command, labels, keys, custom, one, two, three, four, five, six, rest⟩
  · rintro ⟨name, directory, command, labels, keys, custom, one, two, three, four, five, six, rest⟩
    exact ⟨name, one, directory, two, command, three, labels, four, keys, five, custom, six, rest⟩

theorem Normal.texts (normal : Normal draft items) : (planItem draft).texts =
    draft.name :: draft.workingDirectory :: items ++ draft.labels ++ draft.mutexKeys := by
  simp [PlanItem.texts, planItem, normal.command, itemStrings_argv]

theorem one_le_length {text : String} (nonempty : text ≠ "") : 1 ≤ text.length := by
  rw [Nat.one_le_iff_ne_zero, ← String.length_toList]
  exact fun empty => nonempty (String.toList_inj.mp (List.length_eq_zero_iff.mp empty))

theorem Absolute.length {path : String} (absolute : Absolute path) : 1 ≤ path.length := by
  apply one_le_length
  rintro rfl
  have head := absolute.head
  cases head

theorem NormalNames.stripped {limit : Nat} {names : List String} (normal : NormalNames limit names) :
    names.map strip = names :=
  (List.map_congr_left (fun name member => strip_trimmed (normal.trimmed name member))).trans
    (List.map_id' names)

theorem fills_nonempty {text filled : String} (range : 1 ≤ text.length)
    (fills : values.Fills text filled) :
    1 ≤ filled.length := by
  apply one_le_length
  apply Values.Fills.nonempty fills
  rintro rfl
  exact absurd range (by decide)

theorem NormalNames.filled {limit : Nat} {names filled : List String} (normal : NormalNames limit names)
    (unique : UniqueNames filled) (fills : List.Forall₂ values.Fills names filled) :
    filled.length ≤ limit ∧ UniqueNames (filled.map strip) := by
  rw [fills_strip normal.trimmed fills, ← fills.length_eq]
  exact ⟨normal.count, unique⟩

theorem Arguments.filled {command : List String} (arguments : Arguments items)
    (fills : List.Forall₂ values.Fills items command) : Arguments command where
  nonempty := by
    rintro rfl
    exact arguments.nonempty (List.forall₂_nil_right_iff.mp fills)
  each := by
    intro argument member
    obtain ⟨item, isItem, one⟩ := Calls.forall₂_left fills.flip argument member
    obtain ⟨nonempty, clean⟩ := arguments.each item isItem
    exact ⟨Values.Fills.nonempty one nonempty, Values.Fills.nul one clean⟩

/-- Where values are deferred, the store accepts exactly the drafts that can be filled. -/
theorem materialize_iff_fillable (normal : Normal draft items)
    (absolute : Absolute draft.workingDirectory)
    (deferred : draft.deferred ≠ []) :
    (∃ task, draft.materialize machine values = some task) ↔ (planItem draft).Fillable values := by
  constructor
  · rintro ⟨task, done⟩
    obtain ⟨name, directory, command, labels, keys, custom, named, directed, commanded, labelled, keyed,
      customized, fresh, validates⟩ := (materialize_deferred deferred).mp done
    obtain ⟨valid, _⟩ := validate_iff.mp validates
    rw [Values.resolvedString_iff] at named directed
    rw [resolvedStrings_iff] at labelled keyed
    rw [normal.command, resolvedCommand_iff] at commanded
    have fields := Values.resolveFields_filled customized
    refine ⟨?_, ?_, fun filled fills => ?_, fun filled fills => ?_, fun filled fills =>
      ?_, fun field member => ?_⟩
    · rw [normal.texts]
      simp only [List.forall_mem_append, List.forall_mem_cons]
      exact ⟨⟨⟨⟨Values.exists_fills_iff.mp ⟨_, named.2⟩, Values.exists_fills_iff.mp ⟨_, directed.2⟩,
        exists_fillsAll_iff.mp ⟨_, commanded⟩⟩, exists_fillsAll_iff.mp ⟨_, labelled.2⟩⟩,
        exists_fillsAll_iff.mp ⟨_, keyed.2⟩⟩, (exists_resolveFields_iff _).mp ⟨_, customized⟩⟩
    · simp only [List.forall_mem_append, List.forall_mem_cons]
      exact ⟨⟨named.1, labelled.1⟩, keyed.1⟩
    · rw [String.toList_inj.mp (References.Fills.unique variableName_closes fills named.2)]
      exact valid.name.2
    · rw [fillsAll_unique fills labelled.2, ← fills_strip normal.labels.trimmed labelled.2]
      exact valid.labels.2
    · rw [fillsAll_unique fills keyed.2, ← fills_strip normal.mutexKeys.trimmed keyed.2]
      exact valid.mutexKeys.2
    · have keys := filledFields_keys fields
      obtain ⟨other, isOther, same⟩ :=
        List.mem_map.mp (keys ▸ List.mem_map_of_mem (f := Prod.fst) member)
      rw [← same]
      exact fresh other isOther
  · intro fillable
    have known := fillable.known
    have partly := fillable.partly
    rw [normal.texts] at known
    simp only [List.forall_mem_append, List.forall_mem_cons] at known partly
    obtain ⟨⟨⟨⟨named, directed, commanded⟩, labelled⟩, keyed⟩, customized⟩ := known
    obtain ⟨name, isName⟩ := Values.exists_fills_iff.mpr named
    obtain ⟨directory, isDirectory⟩ := Values.exists_fills_iff.mpr directed
    obtain ⟨command, isCommand⟩ := exists_fillsAll_iff.mpr commanded
    obtain ⟨labels, isLabels⟩ := exists_fillsAll_iff.mpr labelled
    obtain ⟨keys, isKeys⟩ := exists_fillsAll_iff.mpr keyed
    obtain ⟨custom, isCustom⟩ := (exists_resolveFields_iff draft.custom).mpr customized
    refine ⟨_, (materialize_deferred deferred).mpr ⟨name, directory, command, labels, keys, custom,
      Values.resolvedString_iff.mpr ⟨partly.1.1, isName⟩,
      Values.resolvedString_iff.mpr ⟨absolute_partly absolute, isDirectory⟩, ?_,
      resolvedStrings_iff.mpr ⟨partly.1.2, isLabels⟩, resolvedStrings_iff.mpr ⟨partly.2, isKeys⟩,
        isCustom, ?_,
      validate_iff.mpr ⟨?_, rfl⟩⟩⟩
    · rw [normal.command]
      exact resolvedCommand_iff.mpr isCommand
    · intro field member
      have same := filledFields_keys (Values.resolveFields_filled isCustom)
      obtain ⟨other, isOther, isField⟩ :=
        List.mem_map.mp (same ▸ List.mem_map_of_mem (f := Prod.fst) member)
      rw [← isField]
      exact fillable.fresh other isOther
    · have filled := normal.arguments.filled isCommand
      exact ⟨⟨fills_nonempty normal.name.1 isName, fillable.name name isName⟩,
        fills_nonempty absolute.length isDirectory,
        filled.nonempty, filled.each, normal.labels.filled (fillable.labels _ isLabels) isLabels,
        normal.mutexKeys.filled (fillable.mutexKeys _ isKeys) isKeys⟩

/-- Without deferred values the store accepts every validated draft. -/
theorem materialize_plain (normal : Normal draft items) (absolute : Absolute draft.workingDirectory)
    (plain : draft.deferred = []) : ∃ task, draft.materialize machine values = some task := by
  have normalized : normalizeCommand machine none draft.command = some items := by
    have some : ¬ (items.map Json.str).isEmpty = true := by simpa using normal.arguments.nonempty
    have each : (items.map Json.str).mapM argument? = .some items := by
      rw [mapM_argument?]
      exact if_pos normal.arguments.each
    rw [normal.command, argv, normalizeCommand, if_neg some, each]
  have names : ∀ {limit : Nat} {names : List String}, NormalNames limit names →
      names.length ≤ limit ∧ UniqueNames (names.map strip) := by
    intro limit names normal
    rw [normal.stripped]
    exact ⟨normal.count, normal.unique⟩
  rw [Draft.materialize, if_pos plain, normalized]
  exact ⟨_, validate_iff.mpr
    ⟨⟨normal.name, absolute.length, normal.arguments.nonempty, normal.arguments.each,
    names normal.labels, names normal.mutexKeys⟩, rfl⟩⟩

/-- What the store made of a draft is what the plan shows of it. -/
theorem materialize_agrees (normal : Normal draft items)
    (named : values.map Prod.fst = draft.deferred.map Prod.fst)
    (done : draft.materialize machine values = some task) :
    (planItem draft).Agrees values task := by
  cases materialized done with
  | plain none normalized name directory labels keys custom =>
    have effective : (planItem draft).effective values = Option.none := if_pos none
    have empty : values = [] := by simpa [none] using named
    have same : items = task.command := by
      rw [normal.command] at normalized
      obtain ⟨_, _, isText, _⟩ | same := normalizeCommand_cases normalized
      · cases isText
      · exact argv_injective same
    rw [normal.labels.stripped] at labels
    rw [normal.mutexKeys.stripped] at keys
    have itself : ∀ texts : List String, List.Forall₂ (Placed Option.none) texts texts :=
      fun texts => List.forall₂_same.mpr (fun _ _ => rfl)
    refine ⟨⟨?_, ?_, ⟨items, normal.command, ?_⟩, ?_, ?_⟩, draft.custom, ?_, ?_⟩
    · rw [effective]
      exact name
    · rw [effective]
      exact directory
    · rw [effective, ← same]
      exact itself _
    · rw [effective, labels]
      exact itself _
    · rw [effective, keys]
      exact itself _
    · rw [effective]
      rfl
    · rw [empty, custom, List.map_nil, List.append_nil]
  | deferred labels keys custom some commanded named directed labelled labels' keyed keys'
      customized custom' =>
    have effective : (planItem draft).effective values = Option.some values := if_neg some
    rw [resolvedStrings_iff] at labelled keyed
    rw [normal.command, resolvedCommand_iff] at commanded
    rw [fills_strip normal.labels.trimmed labelled.2] at labels'
    rw [fills_strip normal.mutexKeys.trimmed keyed.2] at keys'
    refine ⟨⟨?_, ?_, ⟨items, normal.command, ?_⟩, ?_, ?_⟩, custom, ?_, custom'⟩
    · rw [effective]
      exact Store.resolvedString_fills named
    · rw [effective]
      exact Store.resolvedString_fills directed
    · rw [effective]
      exact commanded
    · rw [effective, labels']
      exact labelled.2
    · rw [effective, keys']
      exact keyed.2
    · rw [effective]
      exact Values.resolveFields_filled customized

/-- The custom data comes out as planned exactly when it refers to nothing that is deferred. -/
theorem agreesVerbatim_iff (agrees : (planItem draft).Agrees values task) :
    (planItem draft).AgreesVerbatim values task ↔ (draft.deferred ≠ [] →
      ∀ text ∈ Json.fieldStrings draft.custom, ∀ name, ¬ Values.Mentions name text) := by
  obtain ⟨placed, isPlaced, custom⟩ := agrees.custom
  by_cases plain : draft.deferred = []
  · have effective : (planItem draft).effective values = none := if_pos plain
    rw [effective] at isPlaced
    refine iff_of_true ⟨agrees.toShows, ?_⟩ (fun some => absurd plain some)
    rw [custom, isPlaced]
  · have effective : (planItem draft).effective values = some values := if_neg plain
    rw [effective] at isPlaced
    constructor
    · intro verbatim _
      have same : placed = draft.custom := List.append_cancel_right (custom.symm.trans verbatim.custom)
      rw [same] at isPlaced
      exact (filledFields_self_iff _).mp isPlaced
    · intro absent
      have same : placed = draft.custom :=
        filledFields_unique isPlaced ((filledFields_self_iff _).mpr (absent plain))
      exact ⟨agrees.toShows, by rw [custom, same]; rfl⟩

end Filling

section Main
variable {machine : Machine} {expand : Object → Object → Option Expansion}
  {configuration inputs : Object}
  {expansion : Expansion} {source : Json} {draft : Draft} {arguments : List String}
  {items : List PlanItem}
  {values : Values} {integers : List Values}

/-- The draft with the snapshot of its source files. -/
def withFiles (draft : Draft) (files : List String) : Draft :=
  { draft with custom := withSourceFiles files draft.custom }

theorem entry_iff (planned : Planned machine source draft arguments)
    (R : PlanItem → Values → TaskCreate → Prop) :
    (∃ task, (do
      let prepared ← draft.prepare machine
      prepared.materialize machine values) = some task ∧ ∃ files,
        resolveSourceFiles machine source draft.workingDirectory = some files ∧
        R ((planItem draft).sourced files) values task) ↔
    ∃ files, resolveSourceFiles machine source draft.workingDirectory = some files ∧
      ∃ task, (withFiles draft files).materialize machine values = some task ∧
        R ((planItem draft).sourced files) values task := by
  rw [prepare_planned planned]
  cases resolveSourceFiles machine source draft.workingDirectory with
  | none => simp
  | some files => simp [withFiles]

theorem Planned.withFiles_normal (planned : Planned machine source draft arguments)
    (files : List String) :
    Normal (withFiles draft files) arguments :=
  ⟨planned.command, planned.arguments, planned.name, planned.labels, planned.mutexKeys⟩

theorem Planned.absolute (planned : Planned machine source draft arguments) :
    Absolute draft.workingDirectory :=
  machine.absolute _ _ _ planned.resolved

theorem accepted_iff (planned : Planned machine source draft arguments) (files : List String) :
    (∃ task, (withFiles draft files).materialize machine values = some task) ↔
      (draft.deferred ≠ [] → ((planItem draft).sourced files).Fillable values) := by
  by_cases plain : draft.deferred = []
  · exact iff_of_true (materialize_plain (planned.withFiles_normal files) planned.absolute plain)
      (fun some => absurd plain some)
  · rw [materialize_iff_fillable (planned.withFiles_normal files) planned.absolute plain]
    exact ⟨fun fillable _ => fillable, fun fillable => fillable plain⟩

theorem agrees_iff (planned : Planned machine source draft arguments) (files : List String)
    (named : values.map Prod.fst = draft.deferred.map Prod.fst) :
    (∃ task, (withFiles draft files).materialize machine values = some task ∧
      ((planItem draft).sourced files).Agrees values task) ↔
      (draft.deferred ≠ [] → ((planItem draft).sourced files).Fillable values) := by
  rw [← accepted_iff planned files]
  constructor
  · rintro ⟨task, done, _⟩
    exact ⟨task, done⟩
  · rintro ⟨task, done⟩
    exact ⟨task, done, materialize_agrees (planned.withFiles_normal files) named done⟩

theorem verbatim_iff (planned : Planned machine source draft arguments) (files : List String)
    (named : values.map Prod.fst = draft.deferred.map Prod.fst) :
    (∃ task, (withFiles draft files).materialize machine values = some task ∧
      ((planItem draft).sourced files).AgreesVerbatim values task) ↔
      (draft.deferred ≠ [] → ((planItem draft).sourced files).Fillable values) ∧
        CustomPlain (planItem draft) files := by
  have agrees : ∀ task, (withFiles draft files).materialize machine values = some task →
      (((planItem draft).sourced files).AgreesVerbatim values task ↔
        CustomPlain (planItem draft) files) :=
    fun task done => agreesVerbatim_iff (materialize_agrees (planned.withFiles_normal files) named done)
  rw [← accepted_iff planned files]
  constructor
  · rintro ⟨task, done, verbatim⟩
    exact ⟨⟨task, done⟩, (agrees task done).mp verbatim⟩
  · rintro ⟨⟨task, done⟩, plain⟩
    exact ⟨task, done, (agrees task done).mpr plain⟩

/-- Submitting goes item by item. -/
theorem submitsAs_iff (R : PlanItem → Values → TaskCreate → Prop)
    (C : PlanItem → Values → List String → Prop)
    (expanded : expand configuration inputs = some expansion)
    (planned : plan machine expand configuration inputs = some items)
    (allocated : List.Forall₂
      (fun item values => values.map Prod.fst = item.deferredValues.map Prod.fst) items integers)
    (each : ∀ draft arguments values files, Planned machine expansion.source draft arguments →
      values.map Prod.fst = draft.deferred.map Prod.fst →
      ((∃ task, (withFiles draft files).materialize machine values = some task ∧
        R ((planItem draft).sourced files) values task) ↔ C (planItem draft) values files)) :
    SubmitsAs machine expand configuration inputs R expansion.source items integers ↔
      ∀ entry ∈ items.zip integers, ∃ files,
        resolveSourceFiles machine expansion.source entry.1.workingDirectory = some files ∧
        C entry.1 entry.2 files := by
  simp only [plan, expanded, Option.bind_eq_bind, Option.bind_some, Option.bind_eq_some_iff,
    Option.some.injEq] at planned
  obtain ⟨drafts, built, rfl⟩ := planned
  have shown : ∀ draft ∈ drafts, ∃ arguments, Planned machine expansion.source draft arguments := by
    intro draft member
    obtain ⟨_, _, done⟩ := Calls.forall₂_left (Calls.mapM_iff.mp built).flip draft member
    exact planned_of done
  rw [List.forall₂_map_left_iff] at allocated
  have runs : submitRun machine expand configuration inputs integers =
      (drafts.zip integers).mapM (fun entry => do
        let prepared ← entry.1.prepare machine
        prepared.materialize machine entry.2) := by
    simp [submitRun, expanded, built]
  unfold SubmitsAs
  rw [List.zip_map_left, runs, List.forall_mem_map]
  simp only [List.forall₂_map_left_iff]
  rw [Calls.exists_mapM_iff]
  refine forall₂_congr (fun entry member => ?_)
  obtain ⟨arguments, planned⟩ := shown entry.1 (List.of_mem_zip member).1
  have names : entry.2.map Prod.fst = entry.1.deferred.map Prod.fst :=
    (List.forall₂_iff_zip.mp allocated).2 member
  refine (entry_iff planned R).trans (exists_congr (fun files => and_congr_right (fun _ => ?_)))
  exact each entry.1 arguments entry.2 files planned names

/-- When the plan shows items, submitting the same configuration stores exactly them if and only if
their source files resolve and their deferred values can be put in place. Their custom data has
the integers in place as well, so it is the planned one where it refers to none. -/
theorem plan_submit_iff (expanded : expand configuration inputs = some expansion)
    (planned : plan machine expand configuration inputs = some items)
    (allocated : List.Forall₂
      (fun item values => values.map Prod.fst = item.deferredValues.map Prod.fst) items integers) :
    (SubmitsAs machine expand configuration inputs PlanItem.Agrees expansion.source items integers ↔
      ∀ entry ∈ items.zip integers, ∃ files,
        Submittable machine expansion.source entry.1 entry.2 files) ∧
    (SubmitsAs machine expand configuration inputs PlanItem.AgreesVerbatim expansion.source items
      integers ↔
      ∀ entry ∈ items.zip integers, ∃ files,
        Submittable machine expansion.source entry.1 entry.2 files ∧ CustomPlain entry.1 files) := by
  constructor
  · exact submitsAs_iff PlanItem.Agrees
      (fun item values files => item.deferredValues ≠ [] →
        (item.sourced files).Fillable values) expanded planned
      allocated (fun _ _ _ files planned named => agrees_iff planned files named)
  · have verbatim := submitsAs_iff PlanItem.AgreesVerbatim
      (fun item values files => (item.deferredValues ≠ [] → (item.sourced files).Fillable values) ∧
        CustomPlain item files) expanded planned allocated
      (fun _ _ _ files planned named => verbatim_iff planned files named)
    simpa only [Submittable, and_assoc] using verbatim

/-- A plugin that makes the same drafts of every configuration. -/
def fixedRun (drafts : List TaskArguments) : Object → Object → Option Expansion :=
  fun _ _ => some ⟨.null, ⟨"plugin", [], none⟩, drafts⟩

def seedTable : DeferredTable where
  values := [("seed", Store.seedRequest)]
  distinct := seed_distinct
  named := seed_named
  count := seed_count

/-- A task with its seed in its name, its command and its custom data. -/
def seedNamed : TaskArguments :=
  ⟨"smoke $\x7bseed\x7d", "/a", none, none, .str "make SEED=$\x7bseed\x7d", ["seed-$\x7bseed\x7d"], [],
    [("drawn", .str "$\x7bseed\x7d")], none, [], none, some seedTable⟩

/-- A plan whose item defers its seed is submitted with the seed in place. -/
theorem plan_submit_seed : ∃ item, plan .plain (fixedRun [seedNamed]) [] [] = some [item] ∧
    item.name = "smoke $\x7bseed\x7d" ∧
    SubmitsAs .plain (fixedRun [seedNamed]) [] [] PlanItem.Agrees .null [item] [[("seed", 5)]] := by
  have evaluated : (Expansion.planned .plain ⟨.null, ⟨"plugin", [], none⟩, [seedNamed]⟩).any
    (fun drafts =>
      drafts.length = 1 && drafts.all (fun draft => draft.name = "smoke $\x7bseed\x7d" &&
        draft.workingDirectory = "/a" && draft.deferred.map Prod.fst = ["seed"] &&
        ((withFiles draft []).materialize .plain [("seed", 5)]).any (fun task =>
          task.name = "smoke 5" && task.labels = ["seed-5"]))) = true := by
    decide +kernel
  obtain ⟨drafts, built, both⟩ := Option.any_eq_true _ _ |>.mp evaluated
  obtain ⟨one, each⟩ := Bool.and_eq_true _ _ |>.mp both
  obtain ⟨draft, rfl⟩ := List.length_eq_one_iff.mp (of_decide_eq_true one)
  obtain ⟨arguments, planned⟩ : ∃ arguments, Planned .plain .null draft arguments := by
    obtain ⟨_, _, done⟩ := Calls.forall₂_left (Calls.mapM_iff.mp built).flip draft List.mem_cons_self
    exact planned_of done
  simp only [List.all_cons, List.all_nil, Bool.and_true, Bool.and_eq_true, decide_eq_true_eq] at each
  obtain ⟨⟨⟨named, directory⟩, deferred⟩, accepted⟩ := each
  obtain ⟨task, done, _⟩ := Option.any_eq_true _ _ |>.mp accepted
  have shown : plan .plain (fixedRun [seedNamed]) [] [] = some [planItem draft] := by
    simp [plan, fixedRun, built]
  refine ⟨planItem draft, shown, named, ?_⟩
  have names : [("seed", (5 : Int))].map Prod.fst = (planItem draft).deferredValues.map Prod.fst :=
    deferred.symm
  refine (plan_submit_iff rfl shown (.cons names .nil)).1.mpr (fun entry member => ?_)
  rw [List.zip_cons_cons, List.zip_nil_left, List.mem_singleton] at member
  subst member
  have sources : resolveSourceFiles Machine.plain .null draft.workingDirectory = some [] := by
    rw [directory]
    decide
  exact ⟨[], sources, (accepted_iff planned []).mp ⟨task, done⟩⟩

/-- A task labelled with its seed. -/
def seedLabelled : TaskArguments :=
  ⟨"smoke", "/a", none, none, .str "make", ["$\x7bseed\x7d"], [], [], none, [], none, some seedTable⟩

/-- The plan shows the task, and the store refuses a label that is an integer. -/
theorem seed_label_refused : ∃ items, plan .plain (fixedRun [seedLabelled]) [] [] = some items ∧
    List.Forall₂ (fun item values => values.map Prod.fst = item.deferredValues.map Prod.fst) items
    [[("seed", 5)]] ∧
    ¬ SubmitsAs .plain (fixedRun [seedLabelled]) [] [] PlanItem.Agrees .null items [[("seed", 5)]] ∧
    ¬ SubmitsAs .plain (fixedRun [seedLabelled]) [] [] PlanItem.AgreesVerbatim .null items
    [[("seed", 5)]] := by
  have shown : (plan .plain (fixedRun [seedLabelled]) [] []).any (fun items =>
      items.all (fun item => ["seed"] = item.deferredValues.map Prod.fst) && items.length = 1) =
        true := by
    decide +kernel
  have refused : (submitRun .plain (fixedRun [seedLabelled]) [] [] [[("seed", 5)]]).isNone = true := by
    decide +kernel
  obtain ⟨items, planned, deferred⟩ := Option.any_eq_true _ _ |>.mp shown
  rw [Bool.and_eq_true, decide_eq_true_eq] at deferred
  obtain ⟨each, one⟩ := deferred
  obtain ⟨item, rfl⟩ := List.length_eq_one_iff.mp one
  have named : ["seed"] = item.deferredValues.map Prod.fst := by simpa using each
  have nothing := Option.isNone_iff_eq_none.mp refused
  refine ⟨[item], planned, .cons named .nil, ?_, ?_⟩
  · rintro ⟨tasks, done, _⟩
    rw [nothing] at done
    cases done
  · rintro ⟨tasks, done, _⟩
    rw [nothing] at done
    cases done

end Main

end LocalFlow
