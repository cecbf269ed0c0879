import LocalFlow.Deferral
import LocalFlow.Drafting

/-! Which submissions commit a shell command that enters the directory of its task. The registry, the
overrides of a batch, the service and the store each touch the command or the directory; the two
stay together unless a batch overrides one of them. -/
namespace LocalFlow
open References

/-- Deferred values in place; the text itself where nothing is deferred. -/
def Placed : Option Values → String → String → Prop
  | none, text, placed => placed = text
  | some values, text, placed => values.Fills text placed

/-- The text enters `directory` and goes on with `rest`. -/
def Enters (directory : String) (text rest : List Char) : Prop :=
  ∃ word, text = "cd ".toList ++ word ∧ ShellWord.read .bare word = some (directory.toList, rest)

/-- What stands between the second change of directory and the user's command. -/
def trailer (shellName : String) : String :=
  (if shellName = "csh" ∨ shellName = "tcsh" then "\nif ( $status != 0 ) exit $status" else "") ++
    shellUserCommandBoundary

/-- The script enters `directory` before any source files and again before the user's command. -/
inductive Wrapped (values : Option Values) (shellName : String) (files : List String)
    (directory userCommand script : String) : Prop where
  | plain (command : String) : files = [] → Enters directory script.toList (" && " ++ command).toList →
      Placed values userCommand command → Wrapped values shellName files directory userCommand script
  | sourced (lines again command : String) : files ≠ [] →
      Enters directory script.toList (" && " ++ lines ++ "\n" ++ again).toList →
      Placed values (joinWith "\n" (sourceLines shellName files)) lines →
      Enters directory again.toList (trailer shellName ++ command).toList →
      Placed values userCommand command → Wrapped values shellName files directory userCommand script

section Placing

/-- The syntax of references and their values: without deferred values no text is a reference. -/
def placing : Option Values → References × (List Char → Option (List Char))
  | none => (⟨fun _ => false, fun _ => false⟩, fun _ => none)
  | some values => (variableName, values.decimal)

variable {values : Option Values} {text placed : String}

theorem not_begins_none {name after chars : List Char} :
    ¬ (placing none).1.Begins name after chars := by
  intro begins
  obtain ⟨first, rest, _, starts, _⟩ := begins.named
  cases starts

theorem placed_iff :
    Placed values text placed ↔
    (placing values).1.Fills (placing values).2 text.toList placed.toList := by
  cases values with
  | some values => exact Iff.rfl
  | none =>
    have itself : ∀ chars out : List Char, (placing none).1.Fills (placing none).2 chars out ↔
      out = chars := by
      intro chars
      induction chars with
      | nil => exact fun out => fills_nil
      | cons c chars ih =>
        intro out
        constructor
        · intro fills
          cases fills with
          | reference begins => exact absurd begins not_begins_none
          | char _ later => rw [(ih _).mp later]
        · rintro rfl
          exact .char (fun _ _ => not_begins_none) ((ih _).mpr rfl)
    rw [itself]
    exact String.toList_inj.symm

theorem placing_inert {c : Char} (dollar : c ≠ '$') (opens : c ≠ opening) (closes : c ≠ closing)
    (start : variableName.start c = false) (more : variableName.more c = false) :
    (placing values).1.Inert c := by
  cases values with
  | none => exact ⟨dollar, opens, closes, rfl, rfl⟩
  | some values => exact ⟨dollar, opens, closes, start, more⟩

theorem inert_quote : (placing values).1.Inert ShellWord.singleQuote :=
  placing_inert (by decide) (by decide) (by decide) (by decide) (by decide)

theorem inert_newline : (placing values).1.Inert '\n' :=
  placing_inert (by decide) (by decide) (by decide) (by decide) (by decide)

theorem placing_closes : (placing values).1.more closing = false := by
  cases values with
  | none => rfl
  | some values => exact variableName_closes

theorem placing_unquoted {name put : List Char} (known : (placing values).2 name = some put) :
    ShellWord.singleQuote ∉ put := by
  cases values with
  | none => cases known
  | some values =>
    intro member
    rcases values.decimal_chars known _ member with digit | sign
    · exact absurd digit (by decide)
    · exact absurd sign (by decide)

theorem placed_plain (plain : '$' ∉ text.toList) : Placed values text placed ↔ placed = text := by
  rw [placed_iff, fills_plain plain]
  exact String.toList_inj

theorem Placed.unique {other : String} (one : Placed values text placed)
    (two : Placed values text other) :
    placed = other :=
  String.toList_inj.mp ((placed_iff.mp one).unique placing_closes (placed_iff.mp two))

/-- Filling references leaves a first character that is no dollar sign where it is. -/
theorem Placed.head {c : Char} (isPlaced : Placed values text placed)
    (head : text.toList.head? = some c)
    (plain : c ≠ '$') : placed.toList.head? = some c := by
  have fills := placed_iff.mp isPlaced
  obtain ⟨rest, whole⟩ := List.head?_eq_some_iff.mp head
  rw [whole, fills_cons plain] at fills
  obtain ⟨tail, isTail, _⟩ := fills
  rw [isTail]
  rfl

end Placing

section Scripts
variable {values : Option Values} {text placed shellName workingDirectory userCommand : String}
  {files : List String} {rest out : List Char}

/-- A change of directory enters the directory with deferred values in place. -/
theorem enters_placed {c : Char} (ends : ShellWord.Ends c) (plain : c ≠ '$')
    (fills : (placing values).1.Fills (placing values).2
      (("cd " ++ shlexQuote workingDirectory).toList ++ c :: rest) out) :
    ∃ directory tail, Placed values workingDirectory directory ∧
      (placing values).1.Fills (placing values).2 rest tail ∧ Enters directory out (c :: tail) := by
  rw [String.toList_append, List.append_assoc, fills_plain_append (by decide)] at fills
  obtain ⟨word, rfl, later⟩ := fills
  rw [shlexQuote, String.toList_ofList] at later
  obtain ⟨filled, tail, whole, beyond, reads⟩ :=
    ShellWord.fills_quote inert_quote (fun _ _ => placing_unquoted) ends plain later
  refine ⟨String.ofList filled, tail, placed_iff.mpr ?_, beyond, word, rfl, ?_⟩
  · rw [String.toList_ofList]
    exact whole
  · rw [String.toList_ofList]
    exact reads

theorem sourceLines_ne_nil (some : files ≠ []) : sourceLines shellName files ≠ [] := by
  obtain ⟨file, others, rfl⟩ := List.exists_cons_of_ne_nil some
  unfold sourceLines
  split
  · exact List.cons_ne_nil _ _
  · split
    · exact List.cons_ne_nil _ _
    · simp

theorem joinWith_append (separator : String) {front more : List String} (one : front ≠ [])
    (two : more ≠ []) :
    joinWith separator (front ++ more) = joinWith separator front ++ separator ++
      joinWith separator more := by
  obtain ⟨next, more, rfl⟩ := List.exists_cons_of_ne_nil two
  induction front with
  | nil => exact absurd rfl one
  | cons item front ih =>
    cases front with
    | nil => rfl
    | cons second front =>
      have rest := ih (List.cons_ne_nil _ _)
      rw [List.cons_append] at rest
      simp only [List.cons_append, joinWith, rest, String.append_assoc]

/-- What the second change of directory is followed by. -/
theorem enter_lines (front entered : String) :
    front ++ joinWith "\n" ([entered] ++ enterCheck shellName) ++
    shellUserCommandBoundary = front ++ entered ++ trailer shellName := by
  unfold enterCheck trailer
  split
  · simp [joinWith, String.append_assoc]
  · simp [joinWith]

theorem trailer_newline (shellName : String) :
    ∃ tail, (trailer shellName).toList = '\n' :: tail ∧ settled tail = true := by
  unfold trailer
  split
  · exact ⟨_, rfl, by decide⟩
  · exact ⟨_, rfl, by decide⟩

theorem enters_inj {directory other : String} {more : List Char} (one : Enters directory out rest)
    (two : Enters other out more) : directory = other := by
  obtain ⟨word, rfl, reads⟩ := one
  obtain ⟨_, same, again⟩ := two
  obtain rfl := List.append_cancel_left same
  rw [reads] at again
  exact String.toList_inj.mp (congrArg Prod.fst (Option.some.inj again))

/-- A script enters one directory only. -/
theorem Wrapped.enters {script directory : String}
    (wrapped : Wrapped values shellName files directory userCommand script) :
    ∃ rest, Enters directory script.toList rest := by
  cases wrapped with
  | plain _ _ enters _ => exact ⟨_, enters⟩
  | sourced _ _ _ _ enters _ _ _ => exact ⟨_, enters⟩

/-- Freezing wraps the user's command, and the wrapper enters the directory it was given with the
deferred values in place. -/
theorem wrapper_wrapped {script : String}
    (placed : Placed values (wrapper shellName files workingDirectory userCommand) script) :
    ∃ directory, Placed values workingDirectory directory ∧
      Wrapped values shellName files directory userCommand script := by
  have whole := placed_iff.mp placed
  have opens : (wrapper shellName files workingDirectory userCommand).toList =
      ("cd " ++ shlexQuote workingDirectory).toList ++
        ' ' :: ("&& ".toList ++ (wrappedBody shellName files workingDirectory userCommand).toList) := by
    simp [wrapper]
  rw [opens] at whole
  obtain ⟨directory, tail, here, beyond, enters⟩ := enters_placed ShellWord.ends_space (by decide) whole
  obtain ⟨body, rfl, fills⟩ := (fills_plain_append (by decide)).mp beyond
  refine ⟨directory, here, ?_⟩
  by_cases unsourced : files = []
  · rw [wrappedBody, if_pos unsourced] at fills
    refine .plain (String.ofList body) unsourced ?_ (placed_iff.mpr ?_)
    · simpa using enters
    · rw [String.toList_ofList]
      exact fills
  · obtain ⟨rest, newline, fixed⟩ := trailer_newline shellName
    have again : (wrappedBody shellName files workingDirectory userCommand).toList =
        (joinWith "\n" (sourceLines shellName files)).toList ++
          '\n' :: (("cd " ++ shlexQuote workingDirectory).toList ++ '\n' ::
            (rest ++ userCommand.toList)) := by
      have follows : ["cd " ++ shlexQuote workingDirectory] ++ enterCheck shellName ≠ [] :=
        List.cons_ne_nil _ _
      rw [wrappedBody, if_neg unsourced, List.append_assoc,
        joinWith_append _ (sourceLines_ne_nil unsourced) follows, enter_lines]
      simp [newline]
    rw [again] at fills
    obtain ⟨lines, entered, rfl, sourced, later⟩ := fills.split inert_newline
    obtain ⟨second, tail, there, last, returns⟩ :=
      enters_placed ShellWord.ends_newline (by decide) later
    obtain ⟨command, rfl, done⟩ := (fills_settled_append fixed).mp last
    obtain rfl := there.unique here
    refine .sourced (String.ofList lines) (String.ofList entered)
      (String.ofList command) unsourced ?_ (placed_iff.mpr ?_) ?_ (placed_iff.mpr ?_)
    · simpa using enters
    · rw [String.toList_ofList]
      exact sourced
    · simpa [newline] using returns
    · rw [String.toList_ofList]
      exact done

end Scripts

/-- How a submission comes in: on `POST /tasks`, or as drafts of a plugin with the `source` of its
values. Only `POST /batches` has `common`; it is empty on the other routes. -/
inductive Route where
  | tasks
  | plugin (source : Json) (stamp : PluginStamp) (common : Object)

namespace Route

def common : Route → Object
  | .tasks => []
  | .plugin _ _ common => common

section Pipeline
variable (machine : Machine) (stopStrategy : Json → Option StopStrategy)

/-- The draft the service hands to the store. -/
def draft (route : Route) (arguments : TaskArguments) : Option Draft :=
  match route with
  | .tasks => do
    let draft ← { arguments with deferredValues := none }.construct machine
    draft.prepare machine
  | .plugin source stamp common => do
    let draft ← arguments.construct machine
    let registered ← draft.register machine source stamp
    let overridden ← registered.override stopStrategy common
    overridden.prepare machine

/-- The stored task, given the integers allocated for the draft. -/
def commit (route : Route) (arguments : TaskArguments) (values : Values) : Option TaskCreate := do
  let draft ← route.draft machine stopStrategy arguments
  draft.materialize machine values

end Pipeline

/-- The command the submission gives for the draft. -/
def command (route : Route) (arguments : TaskArguments) : Json :=
  (Json.get? route.common "command").getD arguments.command

/-- The directory the submission gives for the draft. -/
def directory (route : Route) (arguments : TaskArguments) : String :=
  ((Json.get? route.common "working_directory").bind Json.str?).getD arguments.workingDirectory

def deferred (route : Route) (arguments : TaskArguments) : List (String × DeferredValue) :=
  match route with
  | .tasks => []
  | .plugin _ _ common =>
    if (Json.get? common "deferred_values").isSome then []
    else (arguments.deferredValues.map DeferredTable.values).getD []

/-- The integers that take effect. -/
def placing (route : Route) (arguments : TaskArguments) (values : Values) : Option Values :=
  if route.deferred arguments = [] then none else some values

/-- A string is committed as a script that enters the committed directory, an argument list as it is. -/
structure Frozen (route : Route) (arguments : TaskArguments) (values : Values) (task : TaskCreate) :
    Prop where
  text : ∀ userCommand, route.command arguments = .str userCommand →
    ∃ shell script shellName files, task.command = [shell, "-ic", script] ∧
      ¬ shellCwdSentinel.toList <+: script.toList ∧
      Wrapped (route.placing arguments values) shellName files task.workingDirectory userCommand script
  list : ∀ items, route.command arguments = argv items →
    List.Forall₂ (Placed (route.placing arguments values)) items task.command

/-- A string is not an override, and where the directory is one both are the same in the end; an
argument list does not have the form of a string on the way. -/
structure Freezes (machine : Machine) (route : Route) (arguments : TaskArguments)
    (values : Values) : Prop where
  text : ∀ userCommand, route.command arguments = .str userCommand →
    Json.get? route.common "command" = none ∧ ∃ first last directory,
      machine.resolve machine.root arguments.workingDirectory = some first ∧
      machine.resolve machine.root (route.directory arguments) = some last ∧
      Placed (route.placing arguments values) first directory ∧
      Placed (route.placing arguments values) last directory
  list : ∀ items, route.command arguments = argv items → ¬ Marked items

/-- What the draft's command has become when the store gets it. -/
inductive Comes (machine : Machine) (route : Route) (arguments : TaskArguments) (draft : Draft) :
    Prop where
  | wrapped (shell userCommand first : String) (files : List String) : arguments.command =
      .str userCommand →
      Json.get? route.common "command" = none →
      machine.resolve machine.root arguments.workingDirectory = some first →
      draft.command = argv [shell, "-ic", wrapper (baseName shell) files first userCommand] →
      Comes machine route arguments draft
  | overridden (userCommand : String) : Json.get? route.common "command" = some (.str userCommand) →
      draft.command = .str userCommand → Comes machine route arguments draft
  | list (items : List String) : route.command arguments = argv items → ¬ Marked items →
      draft.command = argv items → Comes machine route arguments draft
  | rewritten (shell userCommand directory : String) (files rest : List String) :
      route.command arguments = argv (shell :: "-ic" :: (shellCwdSentinel ++ userCommand) :: rest) →
      draft.command = argv
        (shell :: "-ic" :: wrapper (baseName shell) files directory userCommand :: rest) →
      Comes machine route arguments draft
  | other : (∀ text, route.command arguments ≠ .str text) →
      (∀ items, route.command arguments ≠ argv items) →
      Comes machine route arguments draft

section Drafts
variable {machine : Machine} {stopStrategy : Json → Option StopStrategy} {route : Route}
  {arguments : TaskArguments}
  {draft : Draft}

/-- A new draft frozen once: its string is wrapped, its argument list stays unless it looks like one. -/
theorem frozen_once {first : Draft} {directory : String} {source frozen : Json}
    (built : ∃ items, normalizeCommand machine arguments.shell arguments.command = some items ∧
      first.command = argv items)
    (done : freezeCommandWorkingDirectory machine first.command directory source = some frozen) :
    (∃ shell userCommand files, arguments.command = .str userCommand ∧
      frozen = argv [shell, "-ic", wrapper (baseName shell) files directory userCommand]) ∨
    (∃ items, arguments.command = argv items ∧ ¬ Marked items ∧ frozen = argv items) ∨
    ∃ shell userCommand files rest,
      arguments.command = argv (shell :: "-ic" :: (shellCwdSentinel ++ userCommand) :: rest) ∧
      frozen = argv (shell :: "-ic" :: wrapper (baseName shell) files directory userCommand ::
        rest) := by
  obtain ⟨items, normalized, isItems⟩ := built
  rw [isItems] at done
  obtain ⟨userCommand, selected, isText, rfl⟩ | isList := normalizeCommand_cases normalized
  · obtain ⟨unmarked, _⟩ | ⟨shell, other, rest, files, same, _, rfl⟩ := freeze_argv done
    · exact absurd ⟨_, _, _, rfl⟩ unmarked
    · simp only [List.cons.injEq] at same
      obtain ⟨rfl, _, text, rfl⟩ := same
      obtain rfl : userCommand = other := by simpa [← String.toList_inj] using text
      exact .inl ⟨selected, userCommand, files, isText, rfl⟩
  · obtain ⟨unmarked, rfl⟩ | ⟨shell, userCommand, rest, files, rfl, _, rfl⟩ := freeze_argv done
    · exact .inr (.inl ⟨items, isList, unmarked, rfl⟩)
    · exact .inr (.inr ⟨shell, userCommand, files, rest, isList, rfl⟩)

/-- A frozen command is left alone by a second freezing. -/
theorem frozen_twice {items : List String} {directory : String} {source frozen : Json}
    (unmarked : ¬ Marked items)
    (done : freezeCommandWorkingDirectory machine (argv items) directory source = some frozen) :
    frozen = argv items := by
  rw [freeze_unmarked unmarked] at done
  exact (Option.some.inj done).symm

theorem comes_kept (route : Route) (arguments : TaskArguments) (draft : Draft) {first : Draft}
    {directory : String} {source frozen : Json}
    (built : ∃ items, normalizeCommand machine arguments.shell arguments.command = some items ∧
      first.command = argv items)
    (kept : Json.get? route.common "command" = none)
    (resolved : machine.resolve machine.root arguments.workingDirectory = some directory)
    (done : freezeCommandWorkingDirectory machine first.command directory source = some frozen) :
    ∃ items, frozen = argv items ∧ ¬ Marked items ∧
      (draft.command = argv items → Comes machine route arguments draft) := by
  have given : route.command arguments = arguments.command := by simp [command, kept]
  obtain ⟨shell, userCommand, files, isText, rfl⟩ | ⟨items, isList, unmarked, rfl⟩ |
    ⟨shell, userCommand, files, rest, isList, rfl⟩ := frozen_once built done
  · exact ⟨_, rfl, wrapper_unmarked, .wrapped shell userCommand directory files isText kept resolved⟩
  · exact ⟨items, rfl, unmarked, .list items (given.trans isList) unmarked⟩
  · exact ⟨_, rfl, wrapper_unmarked,
      .rewritten shell userCommand directory files rest (given.trans isList)⟩

theorem comes_given {value source frozen : Json} {directory : String}
    (given : Json.get? route.common "command" = some value)
    (done : freezeCommandWorkingDirectory machine value directory source = some frozen)
    (isFrozen : draft.command = frozen) : Comes machine route arguments draft := by
  have effective : route.command arguments = value := by simp [command, given]
  by_cases isText : ∃ text, value = .str text
  · obtain ⟨text, rfl⟩ := isText
    exact .overridden text given (isFrozen.trans (Option.some.inj done).symm)
  · by_cases isList : ∃ items, value = argv items
    · obtain ⟨items, rfl⟩ := isList
      obtain ⟨unmarked, rfl⟩ | ⟨shell, userCommand, rest, files, rfl, _, rfl⟩ := freeze_argv done
      · exact .list items effective unmarked isFrozen
      · exact .rewritten shell userCommand directory files rest effective isFrozen
    · refine .other (fun text same => isText ⟨text, ?_⟩) (fun items same => isList ⟨items, ?_⟩)
      · exact effective.symm.trans same
      · exact effective.symm.trans same

theorem comes (done : route.draft machine stopStrategy arguments = some draft) :
    Comes machine route arguments draft ∧
    machine.resolve machine.root (route.directory arguments) = some draft.workingDirectory ∧
    draft.deferred = route.deferred arguments := by
  cases route with
  | tasks =>
    obtain ⟨first, built, done⟩ := Option.bind_eq_some_iff.mp done
    have construct := constructed built
    have prepare := prepared done
    have resolved := prepare.resolved
    rw [construct.workingDirectory] at resolved
    obtain ⟨items, isFrozen, _, becomes⟩ :=
      comes_kept .tasks arguments draft construct.command rfl resolved prepare.command
    refine ⟨becomes isFrozen, resolved, ?_⟩
    rw [Draft.deferred, prepare.deferredValues, construct.deferredValues]
    rfl
  | plugin source stamp common =>
    obtain ⟨first, built, done⟩ := Option.bind_eq_some_iff.mp done
    obtain ⟨second, register, done⟩ := Option.bind_eq_some_iff.mp done
    obtain ⟨third, override, done⟩ := Option.bind_eq_some_iff.mp done
    have construct := constructed built
    have register := registered register
    have override := overridden override
    have prepare := prepared done
    have resolved := register.resolved
    rw [construct.workingDirectory] at resolved
    have redirected := prepare.resolved
    rw [override.workingDirectory] at redirected
    refine ⟨?_, ?_, ?_⟩
    · cases given : Json.get? common "command" with
      | none =>
        obtain ⟨items, isFrozen, unmarked, becomes⟩ :=
          comes_kept (.plugin source stamp common) arguments draft construct.command given resolved
            register.command
        have again := prepare.command
        rw [override.command, given, Option.getD_none, isFrozen] at again
        exact becomes (frozen_twice unmarked again)
      | some value =>
        have frozen := prepare.command
        rw [override.command, given, Option.getD_some] at frozen
        exact comes_given given frozen rfl
    · cases moved : (Json.get? common "working_directory").bind Json.str? with
      | none =>
        rw [moved, Option.getD_none, machine.resolved _ _ _ machine.root resolved] at redirected
        simpa [directory, Route.common, moved, ← redirected] using resolved
      | some other =>
        rw [moved, Option.getD_some] at redirected
        simpa [directory, Route.common, moved] using redirected
    · have same := override.deferred
      rw [Draft.deferred, prepare.deferredValues]
      rw [Draft.deferred] at same
      rw [same, deferred, Draft.deferred, register.deferredValues, construct.deferredValues]

end Drafts

section Commits
variable {machine : Machine} {values : Values} {draft : Draft} {task : TaskCreate}

/-- The integers that take effect on a draft. -/
def effective (draft : Draft) (values : Values) : Option Values :=
  if draft.deferred = [] then none else some values

theorem materialized_directory (done : draft.materialize machine values = some task) :
    Placed (effective draft values) draft.workingDirectory task.workingDirectory := by
  cases materialized done with
  | plain none _ _ same =>
    rw [effective, if_pos none]
    exact same
  | deferred _ _ _ some _ _ directed =>
    rw [effective, if_neg some]
    exact Store.resolvedString_fills directed

theorem materialized_list {items : List String} (isList : draft.command = argv items)
    (done : draft.materialize machine values = some task) :
    List.Forall₂ (Placed (effective draft values)) items task.command := by
  cases materialized done with
  | plain none normalized =>
    rw [effective, if_pos none]
    rw [isList] at normalized
    obtain ⟨_, _, isText, _⟩ | same := normalizeCommand_cases normalized
    · cases isText
    · rw [argv_injective same]
      exact List.forall₂_same.mpr (fun _ _ => rfl)
  | deferred _ _ _ some commanded =>
    rw [effective, if_neg some]
    rw [isList, resolvedCommand_argv] at commanded
    exact Calls.mapM_forall₂ (fun _ _ => Store.resolvedItem_fills) commanded

/-- Python iterates over a string by its characters. -/
theorem resolvedCommand_text {text : String} {items : List String}
    (done : resolvedCommand values (.str text) = some items) : ∀ item ∈ items, item.length = 1 := by
  obtain ⟨resolved, known, done⟩ := Option.bind_eq_some_iff.mp done
  obtain ⟨given, iterated, done⟩ := Option.bind_eq_some_iff.mp done
  cases done
  cases Values.resolve_filled known with
  | reference _ _ => cases iterated
  | text _ _ =>
    cases iterated
    intro item member
    simp only [List.map_map, List.mem_map, Function.comp_apply] at member
    obtain ⟨c, _, rfl⟩ := member
    simp [Json.text]

/-- A string the store still finds is marked once more, or taken apart into its characters. -/
theorem materialized_text {text shell script : String} (isText : draft.command = .str text)
    (done : draft.materialize machine values = some task)
    (wrapped : task.command = [shell, "-ic", script]) :
    shellCwdSentinel.toList <+: script.toList := by
  cases materialized done with
  | plain none normalized =>
    rw [isText, wrapped] at normalized
    obtain ⟨userCommand, _, _, same⟩ | same := normalizeCommand_cases normalized
    · simp only [List.cons.injEq] at same
      rw [same.2.2.1, String.toList_append]
      exact List.prefix_append _ _
    · cases same
  | deferred _ _ _ some commanded =>
    rw [isText, wrapped] at commanded
    have single : "-ic".length = 1 := resolvedCommand_text commanded _ (by simp)
    exact absurd single (by decide)

end Commits

section Main
variable {machine : Machine} {stopStrategy : Json → Option StopStrategy} {route : Route}
  {arguments : TaskArguments}
  {values : Values} {draft : Draft} {task : TaskCreate}

/-- A wrapper with deferred values in place is a script for the directory it was made for. -/
theorem wrapped_commit {shell userCommand first : String} {files : List String}
    (isWrapped : draft.command = argv [shell, "-ic", wrapper (baseName shell) files first userCommand])
    (done : draft.materialize machine values = some task) : ∃ placed script directory,
      task.command = [placed, "-ic", script] ∧ Placed (effective draft values) first directory ∧
      Wrapped (effective draft values) (baseName shell) files directory userCommand script := by
  obtain ⟨placed, _, _, one, isPlaced⟩ :=
    List.forall₂_cons_left_iff.mp (materialized_list isWrapped done)
  obtain ⟨flag, _, isFlag, two, rfl⟩ := List.forall₂_cons_left_iff.mp one
  obtain ⟨script, _, isScript, three, rfl⟩ := List.forall₂_cons_left_iff.mp two
  obtain rfl := List.forall₂_nil_left_iff.mp three
  obtain rfl := (placed_plain (by decide)).mp isFlag
  obtain ⟨directory, isDirectory, isWrapped⟩ := wrapper_wrapped isScript
  exact ⟨placed, script, directory, isPlaced, isDirectory, isWrapped⟩

theorem wrapped_unmarked {shellName directory userCommand script : String} {files : List String}
    {v : Option Values} (isWrapped : Wrapped v shellName files directory userCommand script) :
    ¬ shellCwdSentinel.toList <+: script.toList := by
  intro marked
  obtain ⟨_, word, enters, _⟩ := isWrapped.enters
  obtain ⟨tail, same⟩ := marked
  rw [enters] at same
  exact absurd (List.cons.inj same).1 (by decide)

/-- A wrapped string is committed for the committed directory exactly when the directory it was
wrapped for and the one the service froze come out the same. -/
theorem text_iff {shell userCommand first : String} {files : List String}
    (given : route.command arguments = .str userCommand)
    (kept : Json.get? route.common "command" = none)
    (started : machine.resolve machine.root arguments.workingDirectory = some first)
    (ended : machine.resolve machine.root (route.directory arguments) = some draft.workingDirectory)
    (isWrapped : draft.command = argv [shell, "-ic", wrapper (baseName shell) files first userCommand])
    (deferred : draft.deferred = route.deferred arguments)
    (done : draft.materialize machine values = some task) :
    route.Frozen arguments values task ↔ route.Freezes machine arguments values := by
  have same : effective draft values = route.placing arguments values := by
    rw [effective, Route.placing, deferred]
  have settled := materialized_directory done
  obtain ⟨placed, script, directory, isCommand, here, wraps⟩ := wrapped_commit isWrapped done
  rw [same] at settled here wraps
  have noList : ∀ items, route.command arguments ≠ argv items := by
    rw [given]
    exact fun _ => Json.noConfusion
  constructor
  · intro frozen
    refine ⟨fun _ _ => ⟨kept, first, _, task.workingDirectory, started, ended, ?_, settled⟩,
      fun items isList => absurd isList (noList items)⟩
    obtain ⟨_, _, _, _, isCommitted, _, committed⟩ := frozen.text userCommand given
    rw [isCommand] at isCommitted
    simp only [List.cons.injEq] at isCommitted
    rw [← isCommitted.2.2.1] at committed
    obtain ⟨_, one⟩ := wraps.enters
    obtain ⟨_, two⟩ := committed.enters
    rw [← enters_inj one two]
    exact here
  · intro freezes
    obtain ⟨_, _, _, _, resolved, redirected, one, two⟩ := freezes.text userCommand given
    obtain rfl := Option.some.inj (started.symm.trans resolved)
    obtain rfl := Option.some.inj (ended.symm.trans redirected)
    obtain rfl := here.unique one
    obtain rfl := two.unique settled
    refine ⟨fun text isText => ?_, fun items isList => absurd isList (noList items)⟩
    obtain rfl := Json.str.inj (given.symm.trans isText)
    exact ⟨placed, script, baseName shell, files, isCommand, wrapped_unmarked wraps, wraps⟩

/-- A string that overrides the command reaches the store as it is, and no script comes of it. -/
theorem overridden_not {userCommand : String}
    (given : Json.get? route.common "command" = some (.str userCommand))
    (isText : draft.command = .str userCommand) (done : draft.materialize machine values = some task) :
    ¬ route.Frozen arguments values task := by
  intro frozen
  have effective : route.command arguments = .str userCommand := by simp [command, given]
  obtain ⟨shell, script, _, _, isCommand, unmarked, _⟩ := frozen.text userCommand effective
  exact unmarked (materialized_text isText done isCommand)

theorem list_frozen {items : List String} (given : route.command arguments = argv items)
    (isList : draft.command = argv items) (deferred : draft.deferred = route.deferred arguments)
    (done : draft.materialize machine values = some task) : route.Frozen arguments values task := by
  have same : effective draft values = route.placing arguments values := by
    rw [effective, Route.placing, deferred]
  refine ⟨fun text isText => ?_, fun others isOthers => ?_⟩
  · rw [given] at isText
    cases isText
  · rw [← argv_injective (given.symm.trans isOthers), ← same]
    exact materialized_list isList done

/-- An argument list that looks like a string on the way is wrapped like one. -/
theorem rewritten_not {shell userCommand directory : String} {files rest : List String}
    (given : route.command arguments = argv
      (shell :: "-ic" :: (shellCwdSentinel ++ userCommand) :: rest))
    (isWrapped : draft.command = argv
      (shell :: "-ic" :: wrapper (baseName shell) files directory userCommand :: rest))
    (done : draft.materialize machine values = some task) : ¬ route.Frozen arguments values task := by
  intro frozen
  obtain ⟨_, _, _, one, isCommand⟩ := List.forall₂_cons_left_iff.mp (materialized_list isWrapped done)
  obtain ⟨_, _, _, two, rfl⟩ := List.forall₂_cons_left_iff.mp one
  obtain ⟨script, _, isScript, _, rfl⟩ := List.forall₂_cons_left_iff.mp two
  have kept := frozen.list _ given
  rw [isCommand] at kept
  simp only [List.forall₂_cons] at kept
  have wraps := isScript.head (wrapper_head _ _ _ _) (by decide)
  have marks := kept.2.2.1.head (sentinel_head _) (by decide)
  rw [wraps] at marks
  cases marks

theorem frozen_iff_freezes (done : route.commit machine stopStrategy arguments values = some task) :
    route.Frozen arguments values task ↔ route.Freezes machine arguments values := by
  obtain ⟨draft, drafted, done⟩ := Option.bind_eq_some_iff.mp done
  obtain ⟨comes, ended, deferred⟩ := comes drafted
  cases comes with
  | wrapped shell userCommand first files isText kept started isWrapped =>
    exact text_iff (by simp [command, kept, isText]) kept started ended isWrapped deferred done
  | overridden userCommand given isText =>
    refine iff_of_false (overridden_not given isText done) (fun freezes => ?_)
    have effective : route.command arguments = .str userCommand := by simp [command, given]
    have kept := (freezes.text userCommand effective).1
    rw [given] at kept
    cases kept
  | list items given unmarked isList =>
    refine iff_of_true (list_frozen given isList deferred done)
      ⟨fun text isText => ?_, fun others isOthers => ?_⟩
    · rw [given] at isText
      cases isText
    · rw [← argv_injective (given.symm.trans isOthers)]
      exact unmarked
  | rewritten shell userCommand directory files rest given isWrapped =>
    exact iff_of_false (rewritten_not given isWrapped done)
      (fun freezes => freezes.list _ given ⟨_, _, _, rfl⟩)
  | other noText noList =>
    exact iff_of_true ⟨fun text isText => absurd isText (noText text), fun items isList =>
      absurd isList (noList items)⟩
      ⟨fun text isText => absurd isText (noText text), fun items isList => absurd isList (noList items)⟩

/-- Of an accepted request, every stored task has the command it was given, strings entering the
stored directory, if and only if no batch overrides a command by a string or a directory by another
one, and no argument list has the form of a string on the way. -/
theorem commands_frozen_iff {entries : List (TaskArguments × Values)} {tasks : List TaskCreate}
    (accepted : entries.mapM (fun entry => route.commit machine stopStrategy entry.1 entry.2) =
      some tasks) :
    List.Forall₂ (fun entry task => route.Frozen entry.1 entry.2 task) entries tasks ↔
      ∀ entry ∈ entries, route.Freezes machine entry.1 entry.2 := by
  have each : List.Forall₂ (fun entry task => route.Frozen entry.1 entry.2 task ↔
      route.Freezes machine entry.1 entry.2) entries tasks :=
    Calls.mapM_forall₂ (fun _ _ done => frozen_iff_freezes done) accepted
  clear accepted
  induction each with
  | nil => simp
  | cons one _ ih =>
    rw [List.forall₂_cons, List.forall_mem_cons]
    exact and_congr one ih

def plainArguments : TaskArguments :=
  ⟨"task", "/a", none, none, .str "make", [], [], [], none, [], none, none⟩

theorem commands_frozen_plain : ∃ tasks,
    [(plainArguments, [])].mapM
    (fun entry => Route.tasks.commit .plain (fun _ => none) entry.1 entry.2) =
      some tasks ∧
    List.Forall₂ (fun entry task => Route.tasks.Frozen entry.1 entry.2 task)
    [(plainArguments, [])] tasks := by
  have accepted : ([(plainArguments, [])].mapM
      (fun entry => Route.tasks.commit .plain (fun _ => none) entry.1 entry.2)).isSome = true := by
    decide +kernel
  obtain ⟨tasks, committed⟩ := Option.isSome_iff_exists.mp accepted
  refine ⟨tasks, committed, (commands_frozen_iff committed).mpr (fun entry member => ?_)⟩
  rw [List.mem_singleton.mp member]
  refine ⟨fun _ _ => ⟨rfl, "/a", "/a", "/a", rfl, rfl, rfl, rfl⟩, fun items isList => ?_⟩
  cases isList

/-- A batch that moves the tasks of a plugin elsewhere leaves their commands in the old directory. -/
theorem moved_batch_diverges : ∃ tasks,
    [(plainArguments, [])].mapM (fun entry =>
      (Route.plugin .null ⟨"plugin", [], none⟩ [("working_directory", .str "/b")]).commit .plain
        (fun _ => none) entry.1 entry.2) = some tasks ∧
    ¬ List.Forall₂ (fun entry task => (Route.plugin .null ⟨"plugin", [], none⟩
      [("working_directory", .str "/b")]).Frozen entry.1 entry.2 task)
      [(plainArguments, [])] tasks := by
  have accepted : ([(plainArguments, [])].mapM (fun entry =>
      (Route.plugin .null ⟨"plugin", [], none⟩ [("working_directory", .str "/b")]).commit .plain
        (fun _ => none) entry.1 entry.2)).any (fun tasks => tasks.any (fun task =>
          task.workingDirectory = "/b" && task.command.getLast? = some "cd /a && make")) = true := by
    decide +kernel
  obtain ⟨tasks, committed, diverges⟩ := Option.any_eq_true _ _ |>.mp accepted
  refine ⟨tasks, committed, fun frozen => ?_⟩
  obtain ⟨task, _, kept, rest, rfl⟩ := List.forall₂_cons_left_iff.mp frozen
  obtain rfl := List.forall₂_nil_left_iff.mp rest
  obtain ⟨shell, script, _, _, isCommand, _, wraps⟩ := kept.text "make" rfl
  simp only [List.any_cons, List.any_nil, Bool.or_false, Bool.and_eq_true, decide_eq_true_eq, isCommand,
    List.getLast?_cons_cons, List.getLast?_singleton, Option.some.injEq] at diverges
  obtain ⟨moved, rfl⟩ := diverges
  obtain ⟨_, enters⟩ := wraps.enters
  have there : Enters "/a" "cd /a && make".toList " && make".toList := ⟨_, rfl, by decide⟩
  have same := enters_inj enters there
  rw [moved] at same
  exact absurd same (by decide)

end Main

end Route

end LocalFlow
