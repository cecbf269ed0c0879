import LocalFlow.Freezing
import LocalFlow.Library.Paths
import LocalFlow.Library.Quoted

/-! The plugin `verification`: how a configuration and the inputs of a run become one draft for each
run of each case. The plugin resolves the variables `case` and `seed`; an automatic seed stays a
reference until the store allocates it. -/
namespace LocalFlow

/-! ## Variables -/

/-- What a reference inside a text becomes; a list or a dictionary cannot stand there. -/
def embedded (known : String → Option Json) (name : List Char) : Option (List Char) := do
  let resolved ← known (String.ofList name)
  if resolved.hashable then some resolved.text.toList else none

namespace Json

mutual
/-- `VariableResolver.resolve`, given what a reference resolves to. -/
def resolveWith (known : String → Option Json) : Json → Option Json
  | .null => some .null
  | .bool b => some (.bool b)
  | .int n => some (.int n)
  | .float repr => some (.float repr)
  | .str s =>
    match Values.wholeReference? s with
    | some name => known name
    | none =>
      (variableName.substitute (embedded known) s.toList.length s.toList).map
        (fun out => .str (String.ofList out))
  | .arr items => (resolveItemsWith known items).map .arr
  | .obj fields => (resolveFieldsWith known fields).map .obj

def resolveItemsWith (known : String → Option Json) : List Json → Option (List Json)
  | [] => some []
  | item :: rest => do
    let first ← resolveWith known item
    let others ← resolveItemsWith known rest
    some (first :: others)

def resolveFieldsWith (known : String → Option Json) : Object → Option Object
  | [] => some []
  | (key, value) :: rest => do
    let first ← resolveWith known value
    let others ← resolveFieldsWith known rest
    some ((key, first) :: others)
end

end Json

/-- One flattened layer of values and the names the host fills in later. -/
structure VariableResolver where
  values : Object
  deferred : List String

/-- The text that refers to `name`. -/
def referenceTo (name : String) : String := String.ofList (References.spelled name.toList)

namespace VariableResolver
variable (resolver : VariableResolver)

/-- `variable`. `rounds` counts the names that may still come onto the stack. -/
def variableNamed : Nat → List String → String → Option Json
  | 0, _, name => if name ∈ resolver.deferred then some (.str (referenceTo name)) else none
  | rounds + 1, stack, name =>
    if name ∈ resolver.deferred then some (.str (referenceTo name))
    else if name ∈ stack then none
    else do
      let value ← Json.get? resolver.values name
      value.resolveWith (variableNamed rounds (stack ++ [name]))

def resolve (value : Json) : Option Json :=
  value.resolveWith (resolver.variableNamed resolver.values.length [])

/-- `[str(item) for item in resolver.resolve(value)]`. -/
def texts (value : Json) : Option (List String) := do
  let resolved ← resolver.resolve value
  let items ← resolved.items?
  some (items.map Json.text)

section Rounds
variable {resolver} {rounds : Nat} {stack : List String} {name : String}

/-- A name is on the stack once, so the values bound the rounds. -/
theorem variableNamed_enough (distinct : stack.Nodup)
    (known : ∀ entry ∈ stack, entry ∈ resolver.values.map Prod.fst)
    (enough : resolver.values.length ≤ rounds + stack.length) :
    resolver.variableNamed (rounds + 1) stack name = resolver.variableNamed rounds stack name := by
  have inside : ∀ {name value}, Json.get? resolver.values name = some value →
    name ∈ resolver.values.map Prod.fst := by
    intro name value found
    obtain ⟨before, after, whole, _⟩ := List.lookup_eq_some_iff.mp found
    rw [whole]
    simp
  induction rounds generalizing stack name with
  | zero =>
    rw [variableNamed, variableNamed]
    split
    · rfl
    · split
      · rfl
      · rename_i fresh
        cases found : Json.get? resolver.values name with
        | none => rfl
        | some value =>
          have all : stack.Perm (resolver.values.map Prod.fst) := by
            apply (List.subperm_of_subset distinct known).perm_of_length_le
            simpa using enough
          exact absurd (all.mem_iff.mpr (inside found)) fresh
  | succ rounds ih =>
    rw [variableNamed, variableNamed]
    split
    · rfl
    · split
      · rfl
      · rename_i fresh
        cases found : Json.get? resolver.values name with
        | none => rfl
        | some value =>
          have same : resolver.variableNamed (rounds + 1) (stack ++ [name]) =
              resolver.variableNamed rounds (stack ++ [name]) := by
            funext other
            refine ih ?_ ?_ ?_
            · exact List.nodup_append.mpr ⟨distinct, List.nodup_singleton _, by
                rintro a member b single rfl
                exact fresh (List.mem_singleton.mp single ▸ member)⟩
            · intro entry member
              rcases List.mem_append.mp member with old | new
              · exact known entry old
              · rw [List.mem_singleton.mp new]
                exact inside found
            · rw [List.length_append, List.length_singleton]
              omega
          exact congrArg (fun f => value.resolveWith f) same

/-- More rounds than there are values change nothing: an unknown name or a cycle is all that fails. -/
theorem resolve_rounds (resolver : VariableResolver) (value : Json) (more : Nat) :
    value.resolveWith (resolver.variableNamed (resolver.values.length + more) []) =
      resolver.resolve value := by
  have same : resolver.variableNamed (resolver.values.length + more) [] =
      resolver.variableNamed resolver.values.length [] := by
    funext name
    induction more with
    | zero => rfl
    | succ more ih =>
      rw [← ih]
      exact variableNamed_enough List.nodup_nil (fun _ member => absurd member List.not_mem_nil)
        (Nat.le_trans (Nat.le_add_right _ more) (Nat.le_add_right _ _))
  rw [resolve, same]

end Rounds

end VariableResolver

/-! ## Python's functions -/

/-- `int(value)` of a float. From `2 ** 53` on the number is taken as it is printed. -/
def truncated (text : String) : Option Int :=
  let negative := text.toList.head? = some '-'
  let digits := if negative then text.toList.drop 1 else text.toList
  let mantissa := digits.takeWhile (· ≠ 'e')
  let exponent := (digits.dropWhile (· ≠ 'e')).drop 1
  let fraction := (mantissa.dropWhile (· ≠ '.')).drop 1
  do
    let power ← if exponent = [] then some 0 else intOf (String.ofList exponent)
    let n ← (String.ofList (mantissa.takeWhile (· ≠ '.') ++ fraction)).toNat?
    let shift := power - fraction.length
    let size : Int := if 0 ≤ shift then n * 10 ^ shift.toNat else n / 10 ^ (-shift).toNat
    some (if negative then -size else size)

/-- `int(value)`. -/
def Json.int? : Json → Option Int
  | .int n => some n
  | .bool b => some (if b then 1 else 0)
  | .float repr => truncated repr
  | .str s => intOf s
  | _ => none

/-- `text.replace(old, new)`; `fuel` bounds the number of characters. -/
def replaceAll (old new : List Char) : Nat → List Char → List Char
  | 0, text => text
  | _, [] => []
  | fuel + 1, c :: rest =>
    if old.isPrefixOf (c :: rest) then new ++ replaceAll old new fuel ((c :: rest).drop old.length)
    else c :: replaceAll old new fuel rest

/-- `str(Path(text))` of an absolute path. Exactly two slashes at the front stay. -/
def purePath (text : String) : String :=
  let slashes := (text.toList.takeWhile (· = '/')).length
  (if slashes = 2 then "//" else "/") ++ joinWith "/" (Paths.parts text)

/-- `hashlib.sha256(text.encode()).hexdigest()[:24]`. -/
structure Digest where
  run : String → String
  length : ∀ text, (run text).length = 24
  hexadecimal : ∀ text, ∀ c ∈ (run text).toList, c ∈ "0123456789abcdef".toList

/-! ## The plugin -/

namespace Verification
open Json

/-- `_available_cases`; `listing` has the cases of the directory that a value names. -/
def availableCases (listing : String → List String) (values : Object) : Option (List String) :=
  let configured := (get? values "case_names").getD (.arr [])
  if configured.truthy then
    if ((get? values "case_directory").getD .null).truthy ||
      ((get? values "case_root").getD .null).truthy then none
    else do
      let items ← configured.items?
      some ((items.map (fun item => strip item.text)).eraseDups.insertionSort (· ≤ ·))
  else do
    let root ← ((get? values "case_directory").getD ((get? values "case_root").getD (.str ""))).str?
    some (listing root)

/-- The runs of one case. -/
def runsOf (values : Object) (caseName : String) : Option Nat := do
  let caseRuns ← ((get? values "case_runs").getD (.obj [])).asObject?
  let count ← ((get? caseRuns caseName).getD ((get? values "runs").getD (.int 1))).int?
  some count.toNat

/-- The cases of a run and the index of each of their runs. -/
def selections (listing : String → List String) (values : Object) : Option (List (String × Nat)) := do
  let available ← availableCases listing values
  let cases ← get? values "cases"
  if cases.truthy then do
    let items ← cases.items?
    let chosen ← items.mapM (fun item => do
      let caseName ← item.str?
      if caseName ∈ available then do
        let runs ← runsOf values caseName
        some ((List.range runs).map (fun index => (caseName, index)))
      else none)
    some chosen.flatten
  else none

/-- `configured in {None, ""}`; `none` is the `TypeError` of a value that cannot be hashed. -/
def automaticSeed (values : Object) : Option Bool :=
  match (get? values "seed").getD .null with
  | .null => some true
  | .str s => some (s = "")
  | .arr _ | .obj _ => none
  | _ => some false

/-- The value of `seed` in one run. -/
def seedValue (values : Object) (automatic : Bool) (index : Nat) : Option Json :=
  if automatic then some (.str (referenceTo "seed"))
  else (((get? values "seed").getD .null).int?).map (fun seed => .int (seed + index))

/-- The resolver of one run. -/
def dynamic (caseName : String) (automatic : Bool) (seed : Json) : VariableResolver where
  values := [("case", .str caseName), ("seed", seed)]
  deferred := if automatic then ["seed"] else []

def resolvedLabels (values : Object) (caseName : String) (resolver : VariableResolver) :
    Option (List String) :=
  resolver.texts ((get? values "labels").getD (.arr [.str "verification", .str caseName]))

/-- `json.dumps([case_name, sorted(labels)], ensure_ascii=False, separators=(",", ":"))`. -/
def queueIdentity (caseName : String) (labels : List String) : String :=
  let sorted := (labels.insertionSort (· ≤ ·)).map String.toList
  String.ofList ('[' ::
    (Quoted.writePlain caseName.toList ++ ',' :: (Quoted.writeList sorted ++ [']'])))

def derivedKey (digest : Digest) (caseName : String) (labels : List String) : String :=
  "verification:" ++ digest.run (queueIdentity caseName labels)

/-- The command of one run. In a text the case stands as a shell word. -/
def runCommand (resolver : VariableResolver) (caseName : String) : Json → Option Json
  | .str template =>
    let text := template.toList
    let quoted := replaceAll (referenceTo "case").toList (shlexQuote caseName).toList text.length text
    resolver.resolve (.str (String.ofList quoted))
  | template => (resolver.texts template).map argv

/-- The paths of the logs, seen from the directory of the task. -/
def logPaths (machine : Machine) (workingDirectory : String) (resolver : VariableResolver)
    (configured : Option Json) :
    Option (List String) := do
  let paths ← resolver.texts (configured.getD (.arr []))
  paths.mapM (fun path => if Paths.isAbsolute path then some (purePath path)
    else machine.resolve workingDirectory path)

/-- The `deferred_values` of a run with an automatic seed. -/
def seedTable : DeferredTable where
  values := [("seed", Store.seedRequest)]
  distinct := seed_distinct
  named := seed_named
  count := seed_count

/-- A value whose field wants a text or nothing. -/
def optionalText : Json → Option (Option String)
  | .null => some none
  | .str s => some (some s)
  | _ => none

/-- The arguments of `TaskDraft(...)` for one run of a case. -/
def runArguments (machine : Machine) (digest : Digest) (values : Object) (caseName : String)
    (index : Nat) :
    Option TaskArguments := do
  let template ← get? values "command"
  let directory ← ((get? values "working_directory").getD .null).str?
  if directory = "" then none
  else do
    let workingDirectory ← machine.resolve machine.root directory
    let automatic ← automaticSeed values
    let seed ← seedValue values automatic index
    let resolver := dynamic caseName automatic seed
    let labels ← resolvedLabels values caseName resolver
    let mutexKeys ← resolver.texts ((get? values "mutex_keys").getD (.arr []))
    let command ← runCommand resolver caseName template
    let shell ← optionalText ((get? values "shell").getD .null)
    let compileLogs ← logPaths machine workingDirectory resolver (get? values "compile_logs")
    let runLogs ← logPaths machine workingDirectory resolver (get? values "run_logs")
    let customTexts ← resolver.texts ((get? values "custom_texts").getD (.arr []))
    some {
      name := caseName
      workingDirectory, shell, command, labels
      source := none
      mutexKeys := (mutexKeys ++ [derivedKey digest caseName labels]).eraseDups
      custom := [("_case", .str caseName), ("_run", .int (index + 1))] ++
        (if automatic then [] else [("seed", seed)]) ++
        [("_compile_logs", argv compileLogs), ("_run_logs", argv runLogs), ("自定义文本", argv customTexts)]
      template := none
      pluginSnapshot := []
      stop := none
      deferredValues := some (if automatic then seedTable else .empty) }

/-- `expand`. -/
def expand (machine : Machine) (digest : Digest) (listing : String → List String) (values : Object) :
    Option (List Draft) := do
  let chosen ← selections listing values
  chosen.mapM (fun run => do
    let arguments ← runArguments machine digest values run.1 run.2
    arguments.construct machine)

end Verification

end LocalFlow
