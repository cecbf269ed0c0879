import LocalFlow.Freezing
import LocalFlow.Library.Splitting

/-! The command as it is shown: `command_for_log` takes the wrapper of a frozen command off again. -/
namespace LocalFlow
open Splitting ShellWord

/-- The mark that wrappers of an earlier form have before the user's command. -/
def sourceBoundary (workingDirectory : String) : String :=
  " && cd " ++ shlexQuote workingDirectory ++ " &&\n"

/-- The user's command in what follows the change of directory. -/
def visibleCommand (visible : List Char) (workingDirectory : String) : String :=
  match after shellUserCommandBoundary.toList visible with
  | some command => String.ofList command
  | none => String.ofList ((after (sourceBoundary workingDirectory).toList visible).getD visible)

/-- `command_for_log`. -/
def commandForLog (command : List String) (workingDirectory : String) : String :=
  match command with
  | _ :: flag :: source :: _ =>
    let start := ("cd " ++ shlexQuote workingDirectory ++ " && ").toList
    if flag = "-ic" ∧ start.isPrefixOf source.toList then
      visibleCommand (source.toList.drop start.length) workingDirectory
    else joinWith " " (command.map shlexQuote)
  | command => joinWith " " (command.map shlexQuote)

/-- A text has a part. -/
def Has (part text : String) : Prop := part.toList <:+: text.toList

instance (part text : String) : Decidable (Has part text) := inferInstanceAs (Decidable (_ <:+: _))

/-- The wrapper's marks are its own: where nothing is sourced the command has none of them, and
otherwise neither the directory nor a sourced path has the boundary. -/
structure Unmistaken (files : List String) (workingDirectory userCommand : String) : Prop where
  plain : files = [] → ¬ Has shellUserCommandBoundary userCommand ∧
    ¬ Has (sourceBoundary workingDirectory) userCommand
  sourced : files ≠ [] → ¬ Has shellUserCommandBoundary workingDirectory ∧
    ∀ file ∈ files, ¬ Has shellUserCommandBoundary file

section Lines
variable {shellName : String} {files lines : List String} {rest more : List Char}
  {workingDirectory userCommand : String}

/-- A line of the wrapper that is not like the boundary. -/
structure Line (line : String) : Prop where
  single : '\n' ∉ line.toList
  head : line.toList.head? ≠ some '#'

instance (line : String) : Decidable (Line line) :=
  decidable_of_iff ('\n' ∉ line.toList ∧ line.toList.head? ≠ some '#')
    ⟨fun both => ⟨both.1, both.2⟩, fun line => ⟨line.single, line.head⟩⟩

def terminated (lines : List String) : List Char := lines.flatMap (fun line => line.toList ++ ['\n'])

theorem joinWith_terminated (some : lines ≠ []) :
    (joinWith "\n" lines ++ "\n").toList = terminated lines := by
  induction lines with
  | nil => exact absurd rfl some
  | cons line lines ih =>
    cases lines with
    | nil => simp [joinWith, terminated]
    | cons second lines =>
      have later := ih (List.cons_ne_nil _ _)
      have step : joinWith "\n" (line :: second :: lines) = line ++ "\n" ++
        joinWith "\n" (second :: lines) := rfl
      rw [step, String.append_assoc, String.toList_append, later]
      simp [terminated]

/-- The lines that introduce the sourcing, and those that follow each sourced file. -/
theorem sourceLines_blocks (shellName : String) :
    ∃ intro checks, (∀ line ∈ intro ++ checks, Line line) ∧
    ∀ files, sourceLines shellName files = intro ++
      files.flatMap (fun path => sourceFileCommand path shellName :: checks) := by
  unfold sourceLines
  by_cases csh : shellName = "csh" ∨ shellName = "tcsh"
  · refine ⟨["if ( ! $?prompt ) set prompt = \"localflow\""],
      ["if ( $status != 0 ) exit $status"], by decide, fun files => ?_⟩
    rw [if_pos csh]
    rfl
  · by_cases fish : shellName = "fish"
    · refine ⟨[], ["set localflow_source_status $status", "if test $localflow_source_status -ne 0",
        "exit $localflow_source_status", "end"], by decide, fun files => ?_⟩
      rw [if_neg csh, if_pos fish]
      rfl
    · by_cases sh : shellName = "sh" ∨ shellName = "dash"
      · refine ⟨["localflow_source() \x7b", "if [ \"$#\" -eq 0 ]; then return 2; fi", "case \"$1\" in",
          "*/*) [ -r \"$1\" ] || return 127 ;;",
            "*) command -v \"$1\" >/dev/null 2>&1 || [ -r \"$1\" ] || return 127 ;;", "esac",
          ". \"$@\"", "\x7d"], ["localflow_source_status=$?",
          "if [ \"$localflow_source_status\" -ne 0 ]; then exit \"$localflow_source_status\"; fi"],
        by decide, fun files => ?_⟩
        rw [if_neg csh, if_neg fish, if_pos sh]
      · refine ⟨[], ["localflow_source_status=$?",
          "if [ \"$localflow_source_status\" -ne 0 ]; then exit \"$localflow_source_status\"; fi"],
        by decide, fun files => ?_⟩
        rw [if_neg csh, if_neg fish, if_neg sh]

/-- What follows the first character of the boundary. -/
def mark : List Char := "# localflow:user-command\n".toList

theorem boundary_mark : shellUserCommandBoundary.toList = '\n' :: mark := by decide

theorem mark_unquoted : singleQuote ∉ '\n' :: mark := by decide

theorem newline_double : '\n' ≠ doubleQuote := by decide

theorem newline_special : safe '\n' = false := by decide

/-- The boundary does not begin at the end of a line where the next line is not like it. -/
theorem after_newline (next : rest.head? ≠ some '#') :
    after ('\n' :: mark) ('\n' :: rest) = after ('\n' :: mark) rest := by
  refine after_cons (fun starts => ?_)
  obtain ⟨more, rfl⟩ := (List.cons_prefix_cons.mp starts).2
  exact next rfl

theorem after_line {line : String} (plain : Line line) (next : rest.head? ≠ some '#') :
    after ('\n' :: mark) (line.toList ++ '\n' :: rest) = after ('\n' :: mark) rest := by
  rw [after_skip plain.single, after_newline next]

theorem terminated_cons (line : String) (lines : List String) :
    terminated (line :: lines) ++ rest = line.toList ++ '\n' :: (terminated lines ++ rest) := by
  simp [terminated]

theorem terminated_head (plain : ∀ line ∈ lines, Line line) (next : rest.head? ≠ some '#') :
    (terminated lines ++ rest).head? ≠ some '#' := by
  cases lines with
  | nil => exact next
  | cons line lines =>
    have head := (plain line List.mem_cons_self).head
    rw [terminated_cons]
    cases text : line.toList with
    | nil => simp
    | cons c more =>
      rw [text] at head
      exact head

theorem after_terminated (plain : ∀ line ∈ lines, Line line) (next : rest.head? ≠ some '#') :
    after ('\n' :: mark) (terminated lines ++ rest) = after ('\n' :: mark) rest := by
  induction lines with
  | nil => rfl
  | cons line lines ih =>
    have later : ∀ line ∈ lines, Line line := fun line member =>
      plain line (List.mem_cons_of_mem _ member)
    rw [terminated_cons,
      after_line (plain line List.mem_cons_self) (terminated_head later next), ih later]

/-- The keyword of a line that sources a file. -/
theorem sourceFileCommand_text (path shellName : String) :
    ∃ keyword, Line keyword ∧ keyword.toList ≠ [] ∧
    (sourceFileCommand path shellName).toList = keyword.toList ++ quote path.toList := by
  unfold sourceFileCommand
  by_cases sh : shellName = "sh" ∨ shellName = "dash"
  · refine ⟨"localflow_source ", by decide, by decide, ?_⟩
    simp only [if_pos sh, joinWith, shlexQuote, String.toList_append, String.toList_ofList]
    exact congrArg (· ++ _) (by decide)
  · refine ⟨"source ", by decide, by decide, ?_⟩
    simp only [if_neg sh, joinWith, shlexQuote, String.toList_append, String.toList_ofList]
    exact congrArg (· ++ _) (by decide)

/-- The lines of one sourced file. -/
def sourceBlock (shellName : String) (checks : List String) (path : String) : List String :=
  sourceFileCommand path shellName :: checks

variable {checks : List String} {path : String}

theorem block_head (next : rest.head? ≠ some '#') :
    (terminated (files.flatMap (sourceBlock shellName checks)) ++ rest).head? ≠ some '#' := by
  cases files with
  | nil => exact next
  | cons path files =>
    obtain ⟨keyword, plain, some, text⟩ := sourceFileCommand_text path shellName
    have head := plain.head
    rw [List.flatMap_cons, sourceBlock, List.cons_append, terminated_cons, text]
    cases chars : keyword.toList with
    | nil => exact absurd chars some
    | cons c more =>
      rw [chars] at head
      exact head

theorem after_block (plain : ∀ line ∈ checks, Line line) (next : rest.head? ≠ some '#') :
    (¬ Has shellUserCommandBoundary path →
      after ('\n' :: mark) (terminated (sourceBlock shellName checks path) ++ rest) = after
      ('\n' :: mark) rest) ∧
    (Has shellUserCommandBoundary path →
      ∃ more, after ('\n' :: mark) (terminated (sourceBlock shellName checks path) ++ rest) =
        some more ∧ rest.length < more.length) := by
  obtain ⟨keyword, word, _, text⟩ := sourceFileCommand_text path shellName
  have whole : terminated (sourceBlock shellName checks path) ++ rest =
      keyword.toList ++ (quote path.toList ++ '\n' :: (terminated checks ++ rest)) := by
    rw [sourceBlock, terminated_cons, text, List.append_assoc]
  rw [whole, after_skip word.single]
  unfold Has
  rw [boundary_mark]
  constructor
  · intro clean
    rw [after_quote mark_unquoted newline_double newline_special clean,
      after_newline (terminated_head plain next),
      after_terminated plain next]
  · intro found
    obtain ⟨more, isMore, longer⟩ :=
      @after_quote_found mark path.toList ('\n' :: (terminated checks ++ rest)) '\n'
      mark_unquoted newline_double newline_special found
    refine ⟨more, isMore, ?_⟩
    rw [List.length_cons, List.length_append] at longer
    omega

/-- The lines that source the files have the boundary exactly where a path has. -/
theorem after_blocks (plain : ∀ line ∈ checks, Line line) (next : rest.head? ≠ some '#') :
    ((∀ file ∈ files, ¬ Has shellUserCommandBoundary file) →
      after ('\n' :: mark) (terminated (files.flatMap (sourceBlock shellName checks)) ++ rest) =
        after ('\n' :: mark) rest) ∧
    ((∃ file ∈ files, Has shellUserCommandBoundary file) → ∃ more,
      after ('\n' :: mark) (terminated (files.flatMap (sourceBlock shellName checks)) ++ rest) =
        some more ∧ rest.length < more.length) := by
  induction files with
  | nil => exact ⟨fun _ => rfl, fun ⟨_, never, _⟩ => nomatch never⟩
  | cons path files ih =>
    have split : terminated ((path :: files).flatMap (sourceBlock shellName checks)) ++ rest =
        terminated (sourceBlock shellName checks path) ++
          (terminated (files.flatMap (sourceBlock shellName checks)) ++ rest) := by
      simp [terminated]
    obtain ⟨clean, found⟩ :=
      @after_block shellName (terminated (files.flatMap (sourceBlock shellName checks)) ++
      rest) checks path
      plain (block_head next)
    rw [split]
    by_cases here : Has shellUserCommandBoundary path
    · refine ⟨fun all => absurd here (all path List.mem_cons_self), fun _ => ?_⟩
      obtain ⟨more, isMore, longer⟩ := found here
      refine ⟨more, isMore, ?_⟩
      rw [List.length_append] at longer
      omega
    · rw [clean here]
      refine ⟨fun all => ih.1 (fun file member => all file (List.mem_cons_of_mem _ member)),
        fun some => ih.2 ?_⟩
      obtain ⟨file, member, has⟩ := some
      obtain rfl | later := List.mem_cons.mp member
      · exact absurd has here
      · exact ⟨file, later, has⟩

/-- What follows the second change of directory is the user's command. -/
theorem after_trailer :
    after ('\n' :: mark)
    ((trailer shellName).toList ++ userCommand.toList) = some userCommand.toList := by
  have here : after ('\n' :: mark) (shellUserCommandBoundary.toList ++ userCommand.toList) =
    some userCommand.toList := by
    rw [boundary_mark, after_here]
  unfold trailer
  split
  · have line : Line "if ( $status != 0 ) exit $status" := by decide
    have split : ("\nif ( $status != 0 ) exit $status" ++ shellUserCommandBoundary).toList ++
      userCommand.toList =
        '\n' :: ("if ( $status != 0 ) exit $status".toList ++
          (shellUserCommandBoundary.toList ++ userCommand.toList)) := by simp
    rw [split, after_newline (by simp), after_skip line.single, here]
  · rw [String.empty_append, here]

theorem wrappedBody_sourced (some : files ≠ []) :
    (wrappedBody shellName files workingDirectory userCommand).toList =
    terminated (sourceLines shellName files) ++
      ("cd ".toList ++ (quote workingDirectory.toList ++
        ((trailer shellName).toList ++ userCommand.toList))) := by
  have lines : sourceLines shellName files ≠ [] := sourceLines_ne_nil some
  rw [wrappedBody, if_neg some, List.append_assoc, joinWith_append "\n" lines (by simp),
    enter_lines, ← joinWith_terminated lines]
  simp [shlexQuote, List.append_assoc]

/-- After the sourced files the boundary is found at the user's command, or before it where the
directory has it. -/
theorem after_entering :
    (¬ Has shellUserCommandBoundary workingDirectory → after ('\n' :: mark)
      ("cd ".toList ++ (quote workingDirectory.toList ++
        ((trailer shellName).toList ++ userCommand.toList))) = some userCommand.toList) ∧
    (Has shellUserCommandBoundary workingDirectory → ∃ more, after ('\n' :: mark)
      ("cd ".toList ++ (quote workingDirectory.toList ++
        ((trailer shellName).toList ++ userCommand.toList))) = some more ∧
        userCommand.toList.length < more.length) := by
  have absent : '\n' ∉ "cd ".toList := by decide
  rw [after_skip absent]
  unfold Has
  rw [boundary_mark]
  constructor
  · intro clean
    rw [after_quote mark_unquoted newline_double newline_special clean, after_trailer]
  · intro found
    obtain ⟨more, isMore, longer⟩ :=
      @after_quote_found mark workingDirectory.toList ((trailer shellName).toList ++
      userCommand.toList) '\n'
      mark_unquoted newline_double newline_special found
    refine ⟨more, isMore, ?_⟩
    rw [List.length_append] at longer
    omega

/-- The boundary of a wrapper with sourced files is found at the user's command, or before it where
the directory or a path has the boundary. -/
theorem after_sourced (sourced : files ≠ []) :
    ((¬ Has shellUserCommandBoundary workingDirectory ∧
      ∀ file ∈ files, ¬ Has shellUserCommandBoundary file) →
      after shellUserCommandBoundary.toList
      (wrappedBody shellName files workingDirectory userCommand).toList =
        some userCommand.toList) ∧
    ((Has shellUserCommandBoundary workingDirectory ∨
      ∃ file ∈ files, Has shellUserCommandBoundary file) → ∃ more,
      after shellUserCommandBoundary.toList
      (wrappedBody shellName files workingDirectory userCommand).toList = some more ∧
        userCommand.toList.length < more.length) := by
  obtain ⟨intro, checks, plain, blocks⟩ := sourceLines_blocks shellName
  have introPlain : ∀ line ∈ intro, Line line := fun line member =>
    plain line (List.mem_append_left _ member)
  have checksPlain : ∀ line ∈ checks, Line line := fun line member =>
    plain line (List.mem_append_right _ member)
  obtain ⟨tail, isTail⟩ : ∃ tail, tail =
      "cd ".toList ++ (quote workingDirectory.toList ++
        ((trailer shellName).toList ++ userCommand.toList)) := ⟨_, rfl⟩
  have head : tail.head? ≠ some '#' := by
    rw [isTail]
    exact fun same => nomatch same
  have whole : (wrappedBody shellName files workingDirectory userCommand).toList =
      terminated intro ++ (terminated (files.flatMap (sourceBlock shellName checks)) ++ tail) := by
    rw [wrappedBody_sourced sourced, blocks, isTail]
    simp [terminated]
    rfl
  obtain ⟨clean, found⟩ := @after_blocks shellName files tail checks checksPlain head
  obtain ⟨entered, misled⟩ := @after_entering shellName workingDirectory userCommand
  rw [boundary_mark, whole, after_terminated introPlain (block_head head)]
  constructor
  · rintro ⟨directory, paths⟩
    rw [clean paths, isTail, entered directory]
  · intro misleading
    by_cases path : ∃ file ∈ files, Has shellUserCommandBoundary file
    · obtain ⟨more, isMore, longer⟩ := found path
      refine ⟨more, isMore, ?_⟩
      rw [isTail] at longer
      simp only [List.length_append] at longer
      omega
    · rw [clean (fun file member has => path ⟨file, member, has⟩), isTail]
      exact misled (misleading.resolve_right path)

end Lines

/-! ## What is shown -/

section Shown
variable {machine : Machine} {shell shellName workingDirectory userCommand : String}
  {files rest : List String} {source : Json}

theorem commandForLog_wrapper :
    commandForLog (shell :: "-ic" :: wrapper shellName files workingDirectory userCommand ::
      rest) workingDirectory =
    visibleCommand (wrappedBody shellName files workingDirectory userCommand).toList
      workingDirectory := by
  have split : (wrapper shellName files workingDirectory userCommand).toList =
      ("cd " ++ shlexQuote workingDirectory ++ " && ").toList ++
        (wrappedBody shellName files workingDirectory userCommand).toList := by
    rw [wrapper, String.toList_append]
  have starts : ("cd " ++ shlexQuote workingDirectory ++ " && ").toList.isPrefixOf
      (wrapper shellName files workingDirectory userCommand).toList = true := by
    rw [List.isPrefixOf_iff_prefix, split]
    exact List.prefix_append _ _
  unfold commandForLog
  dsimp only
  rw [if_pos ⟨rfl, starts⟩, split, List.drop_left]

theorem ofList_ne {more : List Char} (length : more.length ≠ userCommand.toList.length) :
    String.ofList more ≠ userCommand := by
  rintro rfl
  exact length (by rw [String.toList_ofList])

/-- A command without a wrapper's marks is all that is visible. -/
theorem visibleCommand_plain_iff : visibleCommand userCommand.toList workingDirectory = userCommand ↔
    ¬ Has shellUserCommandBoundary userCommand ∧
      ¬ Has (sourceBoundary workingDirectory) userCommand := by
  unfold visibleCommand Has
  cases boundary : after shellUserCommandBoundary.toList userCommand.toList with
  | some more =>
    have shorter := after_length boundary
    have some_boundary : 0 < shellUserCommandBoundary.toList.length := by decide
    have present : ¬ ¬ shellUserCommandBoundary.toList <:+: userCommand.toList := by
      rw [← after_eq_none_iff, boundary]
      exact fun never => nomatch never
    exact iff_of_false (ofList_ne (by omega)) (fun absent => present absent.1)
  | none =>
    have absent := after_eq_none_iff.mp boundary
    cases older : after (sourceBoundary workingDirectory).toList userCommand.toList with
    | some more =>
      have shorter := after_length older
      have some_boundary : 0 < (sourceBoundary workingDirectory).toList.length := by
        simp [sourceBoundary]
      have present : ¬ ¬ (sourceBoundary workingDirectory).toList <:+: userCommand.toList := by
        rw [← after_eq_none_iff, older]
        exact fun never => nomatch never
      exact iff_of_false (ofList_ne (by dsimp only [Option.getD]; omega))
        (fun absent => present absent.2)
    | none => exact iff_of_true (String.ofList_toList) ⟨absent, after_eq_none_iff.mp older⟩

/-- The wrapper is taken off exactly where its marks are not mistaken. -/
theorem wrapper_shown_iff :
    commandForLog (shell :: "-ic" :: wrapper shellName files workingDirectory userCommand ::
      rest) workingDirectory =
    userCommand ↔ Unmistaken files workingDirectory userCommand := by
  rw [commandForLog_wrapper]
  by_cases none : files = []
  · rw [wrappedBody, if_pos none, visibleCommand_plain_iff]
    exact ⟨fun plain => ⟨fun _ => plain, fun some => absurd none some⟩, fun unmistaken =>
      unmistaken.plain none⟩
  · obtain ⟨clean, found⟩ := @after_sourced shellName files workingDirectory userCommand none
    unfold visibleCommand
    by_cases unmistaken : ¬ Has shellUserCommandBoundary workingDirectory ∧
      ∀ file ∈ files, ¬ Has shellUserCommandBoundary file
    · rw [clean unmistaken]
      exact iff_of_true String.ofList_toList ⟨fun empty => absurd empty none, fun _ => unmistaken⟩
    · have mistaken : Has shellUserCommandBoundary workingDirectory ∨
        ∃ file ∈ files, Has shellUserCommandBoundary file := by
        by_contra neither
        refine unmistaken ⟨fun has => neither (.inl has), fun file member has =>
          neither (.inr ⟨file, member, has⟩)⟩
      obtain ⟨more, isMore, longer⟩ := found mistaken
      rw [isMore]
      exact iff_of_false (ofList_ne (by omega)) (fun held => unmistaken (held.sourced none))

/-- A command string without null characters is shown as it was given, and its frozen form is not
frozen again, exactly where it is not blank and the wrapper's marks are not mistaken. -/
theorem command_displayed_iff (machine : Machine) (shell : Option String)
    (clean : nul ∉ userCommand.toList)
    (sources : resolveSourceFiles machine source workingDirectory = some files) :
    (∃ items frozen, normalizeCommand machine shell (.str userCommand) = some items ∧
      freezeCommandWorkingDirectory machine (argv items) workingDirectory source = some (argv frozen) ∧
      commandForLog frozen workingDirectory = userCommand ∧
      ∀ directory other, freezeCommandWorkingDirectory machine (argv frozen) directory other =
        some (argv frozen)) ↔
    strip userCommand ≠ "" ∧ Unmistaken files workingDirectory userCommand := by
  constructor
  · rintro ⟨items, frozen, isItems, isFrozen, shown, _⟩
    unfold normalizeCommand at isItems
    dsimp only at isItems
    split at isItems
    · cases isItems
    · rename_i accepted
      cases isItems
      rw [freeze_marked, sources] at isFrozen
      obtain rfl := argv_injective (Option.some.inj isFrozen)
      exact ⟨fun blank => accepted (.inl blank), wrapper_shown_iff.mp shown⟩
  · rintro ⟨written, unmistaken⟩
    have accepted : ¬ (strip userCommand = "" ∨ nul ∈ userCommand.toList) := not_or.mpr ⟨written, clean⟩
    have isFrozen : ∀ shell,
      freezeCommandWorkingDirectory machine (argv [shell, "-ic", shellCwdSentinel ++ userCommand])
        workingDirectory source =
          some (argv [shell, "-ic", wrapper (baseName shell) files workingDirectory userCommand]) := by
      intro shell
      rw [freeze_marked, sources]
      rfl
    exact ⟨_, _, if_neg accepted, isFrozen _, wrapper_shown_iff.mpr unmistaken,
      fun directory other => freeze_unmarked wrapper_unmarked⟩

theorem command_displayed_sourced : ∃ items frozen,
    normalizeCommand Machine.plain (some "/bin/tcsh") (.str "make all") = some items ∧
    freezeCommandWorkingDirectory Machine.plain (argv items) "/srv/a b" (.arr [.str "env.csh"]) =
      some (argv frozen) ∧
    commandForLog frozen "/srv/a b" = "make all" := by
  have sources : resolveSourceFiles Machine.plain (.arr [.str "env.csh"]) "/srv/a b" =
    some ["/srv/a b/env.csh"] := by
    decide
  have unmistaken : Unmistaken ["/srv/a b/env.csh"] "/srv/a b" "make all" :=
    ⟨fun empty => (nomatch empty), fun _ => by decide⟩
  obtain ⟨items, frozen, isItems, isFrozen, shown, _⟩ :=
    (command_displayed_iff Machine.plain (some "/bin/tcsh")
    (by decide) sources).mpr ⟨by decide, unmistaken⟩
  exact ⟨items, frozen, isItems, isFrozen, shown⟩

/-- A command that has one of the marks is shown from there on. -/
theorem command_cut :
    (∃ items frozen, normalizeCommand Machine.plain none
      (.str "echo a\n# localflow:user-command\necho b") = some items ∧
      freezeCommandWorkingDirectory Machine.plain (argv items) "/srv" .null = some (argv frozen) ∧
      commandForLog frozen "/srv" = "echo b") ∧
    ∃ items frozen, normalizeCommand Machine.plain none (.str "make && cd /srv &&\nmake install") =
      some items ∧
      freezeCommandWorkingDirectory Machine.plain (argv items) "/srv" .null = some (argv frozen) ∧
      commandForLog frozen "/srv" = "make install" := by
  have unsourced : ∀ command,
    freezeCommandWorkingDirectory Machine.plain (argv ["/bin/bash", "-ic", shellCwdSentinel ++ command])
      "/srv" .null = some (argv ["/bin/bash", "-ic", wrapper "bash" [] "/srv" command]) := by
    intro command
    rw [freeze_marked]
    rfl
  refine ⟨⟨_, _, ?_, unsourced "echo a\n# localflow:user-command\necho b", ?_⟩, _, _, ?_,
    unsourced "make && cd /srv &&\nmake install", ?_⟩
  · decide
  · decide
  · decide
  · decide

end Shown

end LocalFlow
