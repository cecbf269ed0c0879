import LocalFlow.Library.ShellWord
import LocalFlow.Storage.Drafts

/-! Commands of `models.py`. A command given as a string becomes a marked argument list; freezing
replaces the mark by a wrapper that enters the task's directory. -/
namespace LocalFlow

def nul : Char := Char.ofNat 0

/-- An absolute path, which holds no null character. -/
structure Absolute (path : String) : Prop where
  head : path.toList.head? = some '/'
  clean : nul ∉ path.toList

/-- What the code asks of the machine it runs on. -/
structure Machine where
  /-- The controller's root. -/
  root : String
  /-- `str((Path(base) / path).resolve())`; `none` is an exception. -/
  resolve (base path : String) : Option String
  /-- `detected_login_shell()`. -/
  loginShell : String
  /-- A resolved path has nothing left to resolve. -/
  resolved : ∀ base path frozen other, resolve base path = some frozen →
    resolve other frozen = some frozen
  absolute : ∀ base path frozen, resolve base path = some frozen → Absolute frozen
  shell : Absolute loginShell

instance (path : String) : Decidable (Absolute path) :=
  decidable_of_iff (path.toList.head? = some '/' ∧ nul ∉ path.toList)
    ⟨fun both => ⟨both.1, both.2⟩, fun absolute => ⟨absolute.head, absolute.clean⟩⟩

def plainResolve (base path : String) : Option String :=
  if Absolute path then some path
  else if Absolute (base ++ "/" ++ path) then some (base ++ "/" ++ path) else none

theorem plainResolve_absolute {base path frozen : String}
    (done : plainResolve base path = some frozen) :
    Absolute frozen := by
  unfold plainResolve at done
  split at done
  · rename_i absolute
    cases done
    exact absolute
  · rw [Option.ite_none_right_eq_some] at done
    cases done.2
    exact done.1

/-- A machine without links, on which paths hold no dots. -/
def Machine.plain : Machine where
  root := "/"
  resolve := plainResolve
  loginShell := "/bin/bash"
  resolved := fun _ _ _ _ done => if_pos (plainResolve_absolute done)
  absolute := fun _ _ _ done => plainResolve_absolute done
  shell := by decide

def Json.str? : Json → Option String
  | .str s => some s
  | _ => none

def shellCwdSentinel : String := "__LOCALFLOW_RESTORE_FROZEN_CWD__"

def shellUserCommandBoundary : String := "\n# localflow:user-command\n"

/-- An item of an argument list that is given as such. -/
def argument? : Json → Option String
  | .str item => if item = "" ∨ nul ∈ item.toList then none else some item
  | _ => none

/-- `normalize_command`. A dictionary passes it and is refused by the field's own type. -/
def normalizeCommand (machine : Machine) (shell : Option String) : Json → Option (List String)
  | .str value =>
    if strip value = "" ∨ nul ∈ value.toList then none
    else
      let selected := match shell with
        | some shell => if shell = "" then machine.loginShell else shell
        | none => machine.loginShell
      some [selected, "-ic", shellCwdSentinel ++ value]
  | .arr items => if items.isEmpty then none else items.mapM argument?
  | _ => none

def sourceEntry? : Json → Option String
  | .str entry => if strip entry = "" ∨ nul ∈ (strip entry).toList then none else some (strip entry)
  | _ => none

/-- `normalize_source_files`. -/
def normalizeSourceFiles : Json → Option (List String)
  | .null => some []
  | .arr entries => if entries.isEmpty ∨ 64 < entries.length then none else entries.mapM sourceEntry?
  | _ => none

/-- `resolve_source_files`. -/
def resolveSourceFiles (machine : Machine) (value : Json) (workingDirectory : String) :
    Option (List String) := do
  let files ← normalizeSourceFiles value
  files.mapM (machine.resolve workingDirectory)

/-- `Path(path).name`. -/
def baseName (path : String) : String :=
  let parts := (path.toList.splitOn '/').filter (fun part => part ≠ [] ∧ part ≠ ['.'])
  String.ofList (parts.getLast?.getD [])

/-- `shlex.quote`. -/
def shlexQuote (text : String) : String := String.ofList (ShellWord.quote text.toList)

/-- `separator.join(items)`. -/
def joinWith (separator : String) : List String → String
  | [] => ""
  | [item] => item
  | item :: rest => item ++ separator ++ joinWith separator rest

def sourceFileCommand (path shellName : String) : String :=
  let keyword := if shellName = "sh" ∨ shellName = "dash" then "localflow_source" else "source"
  joinWith " " [shlexQuote keyword, shlexQuote path]

/-- The lines that source the files, one way for each family of shells. -/
def sourceLines (shellName : String) (files : List String) : List String :=
  if shellName = "csh" ∨ shellName = "tcsh" then
    "if ( ! $?prompt ) set prompt = \"localflow\"" ::
      files.flatMap (fun path => [sourceFileCommand path shellName, "if ( $status != 0 ) exit $status"])
  else if shellName = "fish" then
    files.flatMap (fun path => [
      sourceFileCommand path shellName,
      "set localflow_source_status $status",
      "if test $localflow_source_status -ne 0",
      "exit $localflow_source_status",
      "end"])
  else
    (if shellName = "sh" ∨ shellName = "dash" then [
      "localflow_source() \x7b",
      "if [ \"$#\" -eq 0 ]; then return 2; fi",
      "case \"$1\" in",
      "*/*) [ -r \"$1\" ] || return 127 ;;",
      "*) command -v \"$1\" >/dev/null 2>&1 || [ -r \"$1\" ] || return 127 ;;",
      "esac",
      ". \"$@\"",
      "\x7d"]
    else []) ++
    files.flatMap (fun path => [
      sourceFileCommand path shellName,
      "localflow_source_status=$?",
      "if [ \"$localflow_source_status\" -ne 0 ]; then exit \"$localflow_source_status\"; fi"])

/-- What follows the second change of directory before the boundary. -/
def enterCheck (shellName : String) : List String :=
  if shellName = "csh" ∨ shellName = "tcsh" then ["if ( $status != 0 ) exit $status"] else []

/-- `body`. -/
def wrappedBody (shellName : String) (files : List String) (workingDirectory userCommand : String) :
    String :=
  if files = [] then userCommand
  else
    joinWith "\n" (sourceLines shellName files ++ ["cd " ++ shlexQuote workingDirectory] ++
      enterCheck shellName) ++
      shellUserCommandBoundary ++ userCommand

def wrapper (shellName : String) (files : List String) (workingDirectory userCommand : String) :
    String :=
  "cd " ++ shlexQuote workingDirectory ++ " && " ++
    wrappedBody shellName files workingDirectory userCommand

/-- The user's command of a script that starts with the sentinel. -/
def userCommand? (script : String) : Option String :=
  if shellCwdSentinel.toList.isPrefixOf script.toList then
    some (String.ofList (script.toList.drop shellCwdSentinel.length))
  else none

/-- `freeze_command_working_directory`. The command and the source may be anything a request put
there; `none` is an exception. -/
def freezeCommandWorkingDirectory (machine : Machine) (command : Json) (workingDirectory : String)
    (source : Json) : Option Json :=
  match command with
  | .arr (shell :: flag :: script :: rest) =>
    if flag.str? = some "-ic" then do
      let script ← script.str?
      match userCommand? script with
      | none => some command
      | some userCommand => do
        let files ← resolveSourceFiles machine source workingDirectory
        let name ← shell.str?
        some (.arr (shell :: flag ::
          .str (wrapper (baseName name) files workingDirectory userCommand) :: rest))
    else some command
  | .arr _ | .str _ => some command
  -- The keys of a dictionary are strings, so `command[1]` is a `KeyError`.
  | .obj fields => if fields.length < 3 then some command else none
  | _ => none

/-- An argument list as a JSON value. -/
def argv (items : List String) : Json := .arr (items.map .str)

/-- The argument list has the form a command string is given on the way. -/
def Marked (items : List String) : Prop :=
  ∃ shell userCommand rest, items = shell :: "-ic" :: (shellCwdSentinel ++ userCommand) :: rest

theorem userCommand?_some {script userCommand : String} :
    userCommand? script = some userCommand ↔ script = shellCwdSentinel ++ userCommand := by
  unfold userCommand?
  constructor
  · intro found
    split at found
    · rename_i starts
      cases found
      obtain ⟨tail, whole⟩ := List.isPrefixOf_iff_prefix.mp starts
      rw [← String.toList_inj, String.toList_append, String.toList_ofList, ← whole,
        String.length_toList.symm,
        List.drop_left]
    · cases found
  · rintro rfl
    have starts : shellCwdSentinel.toList.isPrefixOf (shellCwdSentinel ++ userCommand).toList =
      true := by
      rw [List.isPrefixOf_iff_prefix, String.toList_append]
      exact List.prefix_append _ _
    rw [if_pos starts, String.toList_append, String.length_toList.symm, List.drop_left,
      String.ofList_toList]

section Freezing
variable {machine : Machine} {items : List String} {shell userCommand workingDirectory : String}
  {source : Json}
  {rest : List String}

/-- Freezing leaves every other argument list alone. -/
theorem freeze_unmarked (plain : ¬ Marked items) :
    freezeCommandWorkingDirectory machine (argv items) workingDirectory source = some (argv items) := by
  match items, plain with
  | [], _ | [_], _ | [_, _], _ => rfl
  | shell :: flag :: script :: rest, plain =>
    by_cases interactive : flag = "-ic"
    · have absent : userCommand? script = none := by
        rw [Option.eq_none_iff_forall_ne_some]
        intro userCommand found
        rw [userCommand?_some.mp found, interactive] at plain
        exact plain ⟨_, _, _, rfl⟩
      simp [freezeCommandWorkingDirectory, argv, Json.str?, interactive, absent]
    · simp [freezeCommandWorkingDirectory, argv, Json.str?, interactive]

theorem freeze_marked : freezeCommandWorkingDirectory machine
    (argv (shell :: "-ic" :: (shellCwdSentinel ++ userCommand) :: rest)) workingDirectory source =
      (resolveSourceFiles machine source workingDirectory).map (fun files =>
        argv (shell :: "-ic" :: wrapper (baseName shell) files workingDirectory userCommand ::
          rest)) := by
  have found := userCommand?_some.mpr (rfl : shellCwdSentinel ++ userCommand = _)
  cases resolves : resolveSourceFiles machine source workingDirectory <;>
    simp [freezeCommandWorkingDirectory, argv, Json.str?, found, resolves]

theorem wrapper_head (shellName : String) (files : List String)
    (workingDirectory userCommand : String) :
    (wrapper shellName files workingDirectory userCommand).toList.head? = some 'c' := by
  simp [wrapper]

theorem sentinel_head (text : String) : (shellCwdSentinel ++ text).toList.head? = some '_' := by
  simp [shellCwdSentinel]

theorem wrapper_unmarked {shellName : String} {files : List String} :
    ¬ Marked (shell :: "-ic" :: wrapper shellName files workingDirectory userCommand :: rest) := by
  rintro ⟨_, other, _, same⟩
  simp only [List.cons.injEq] at same
  have heads := congrArg (fun text => text.toList.head?) same.2.2.1
  simp only [wrapper_head, sentinel_head] at heads
  cases heads

end Freezing

end LocalFlow
