import LocalFlow.Storage.Transition

/-! The plugin files of `plugins.py`: what executing a file leaves, the checks of a plugin's
metadata, and the registry that loads a directory of them. -/
namespace LocalFlow

/-- An exception of a plugin. `except Exception` lets one pass that is none. -/
structure PluginError where
  kind : String
  message : String
  isException : Bool := true

namespace PluginError

def typeError (message : String) : PluginError := { kind := "TypeError", message }
def valueError (message : String) : PluginError := { kind := "ValueError", message }
def attributeError (message : String) : PluginError := { kind := "AttributeError", message }

/-- The text of a diagnostic. -/
def text (e : PluginError) : String := e.kind ++ ": " ++ e.message

end PluginError

structure RunFieldSpec where
  name : String
  type : String
  label : Option String
  required : Bool
  multiple : Bool
  countField : Option String
  defaultCountField : Option String

/-- A Python object, as far as the registry can tell them apart. An object of another class, a
Pydantic model and an iterable that is neither a list nor a set are known by their identity. -/
inductive PyObject where
  | none
  | bool (b : Bool)
  | int (n : Int)
  | str (s : String)
  | list (items : List PyObject)
  | dict (fields : List (PyObject × PyObject))
  | set (items : List PyObject)
  | iterable (id : Nat) (items : List PyObject) (raises : Option PluginError)
  | runField (id : Nat) (field : RunFieldSpec)
  | model (id : Nat)
  | object (id : Nat) (callable : Bool)

/-- A dictionary key. `True` and `1` are one key. -/
inductive PyKey where
  | none
  | int (n : Int)
  | str (s : String)
  | object (id : Nat)
  deriving DecidableEq

namespace PyObject

def key : PyObject → Option PyKey
  | none => some .none
  | bool b => some (.int b.toInt)
  | int n => some (.int n)
  | str s => some (.str s)
  | list _ | dict _ | set _ | runField _ _ => Option.none
  | iterable id _ _ | model id | object id _ => some (.object id)

def typeName : PyObject → String
  | none => "NoneType"
  | bool _ => "bool"
  | int _ => "int"
  | str _ => "str"
  | list _ => "list"
  | dict _ => "dict"
  | set _ => "set"
  | iterable _ _ _ => "generator"
  | runField _ _ => "RunFieldSpec"
  | model _ => "ModelMetaclass"
  | object _ _ => "object"

def hash (value : PyObject) : Except PluginError PyKey :=
  match value.key with
  | some key => .ok key
  | Option.none => .error (.typeError ("unhashable type: '" ++ value.typeName ++ "'"))

/-- What a loop over the object meets, and the exception that ends it. -/
def iterate : PyObject → Except PluginError (List PyObject × Option PluginError)
  | list items | set items => .ok (items, Option.none)
  | dict fields => .ok (fields.map Prod.fst, Option.none)
  | str s => .ok (s.toList.map (fun c => str (String.ofList [c])), Option.none)
  | iterable _ items raises => .ok (items, raises)
  | value => .error (.typeError ("'" ++ value.typeName ++ "' object is not iterable"))

def truthy : PyObject → Bool
  | none => false
  | bool b => b
  | int n => n != 0
  | str s => s != ""
  | list items | set items => !items.isEmpty
  | dict fields => !fields.isEmpty
  | _ => true

def callable : PyObject → Bool
  | model _ => true
  | object _ callable => callable
  | _ => false

def str? : PyObject → Option String
  | str s => some s
  | _ => Option.none

/-- `fields.get(name)` for a dictionary. -/
def get? (fields : List (PyObject × PyObject)) (name : String) : Option PyObject :=
  (fields.find? (fun field => field.1.str? = some name)).map Prod.snd

/-- `value.values()`. -/
def values : PyObject → Except PluginError (List PyObject)
  | dict fields => .ok (fields.map Prod.snd)
  | value => .error (.attributeError ("'" ++ value.typeName ++ "' object has no attribute 'values'"))

end PyObject

/-- The code outside the repository: SHA-256, Pydantic with the models of the plugins, and the texts
of objects. -/
structure PluginHost where
  sha256 : List UInt8 → String
  invalidField : PyObject → String
  modelFields : Nat → List String
  modelValidate : Nat → PyObject → Option PluginError
  text : PyObject → String
  sorted : List PyKey → Except PluginError String

/-- A plugin object: what reading an attribute gives, and what an assignment raises. -/
structure Instance where
  attributes : String → Except PluginError (Option PyObject)
  frozen : Option PluginError

namespace Instance

def hasattr (instance' : Instance) (name : String) : Except PluginError Bool :=
  (instance'.attributes name).map Option.isSome

def getattr (instance' : Instance) (name : String) (default : PyObject) : Except PluginError PyObject :=
  (instance'.attributes name).map (fun found => found.getD default)

def get (instance' : Instance) (name : String) : Except PluginError PyObject := do
  match ← instance'.attributes name with
  | some value => .ok value
  | none => .error (.attributeError ("object has no attribute '" ++ name ++ "'"))

def set (instance' : Instance) (name : String) (value : PyObject) : Except PluginError Instance :=
  match instance'.frozen with
  | some e => .error e
  | none => .ok { instance' with attributes := Function.update instance'.attributes name (.ok (some value)) }

end Instance

/-! ## The fields of a run -/

def isNameStart (c : Char) : Bool := c.isAlpha || c = '_'

/-- `^[A-Za-z_][A-Za-z0-9_]*$`. -/
def isName (text : String) : Bool :=
  match text.toList with
  | [] => false
  | c :: rest => isNameStart c && rest.all (fun c => c.isAlphanum || c = '_')

def runFieldTypes : List String :=
  ["string", "integer", "seed", "path", "string-list", "json", "case-picker"]

/-- How Pydantic reads a truth value. -/
def boolOf : PyObject → Option Bool
  | .bool b => some b
  | .int n => if n = 0 then some false else if n = 1 then some true else none
  | .str s =>
    if s.map Char.toLower ∈ ["0", "off", "f", "false", "n", "no"] then some false
    else if s.map Char.toLower ∈ ["1", "on", "t", "true", "y", "yes"] then some true
    else none
  | _ => none

/-- A field that may be missing or `None`. -/
def optionalText (accepts : String → Bool) : Option PyObject → Option (Option String)
  | none | some .none => some none
  | some (.str s) => if accepts s then some (some s) else none
  | _ => none

def flagOf : Option PyObject → Option Bool
  | none => some false
  | some value => boolOf value

namespace RunFieldSpec

/-- `validate_component_options`. -/
def consistent (field : RunFieldSpec) : Bool :=
  if field.type = "case-picker" then
    field.countField.isSome && field.countField ≠ some field.name &&
      field.defaultCountField ≠ some field.name
  else field.countField.isNone && field.defaultCountField.isNone

def ofFields (fields : List (PyObject × PyObject)) : Option RunFieldSpec := do
  guard (fields.all (fun field => field.1.str?.isSome))
  let name ← (← PyObject.get? fields "name").str?
  let type ← (← PyObject.get? fields "type").str?
  guard (isName name && type ∈ runFieldTypes)
  let label ← optionalText (fun s => 1 ≤ s.length && s.length ≤ 80) (PyObject.get? fields "label")
  let required ← flagOf (PyObject.get? fields "required")
  let multiple ← flagOf (PyObject.get? fields "multiple")
  let countField ← optionalText isName (PyObject.get? fields "count_field")
  let defaultCountField ← optionalText isName (PyObject.get? fields "default_count_field")
  let field : RunFieldSpec := { name, type, label, required, multiple, countField, defaultCountField }
  guard field.consistent
  return field

/-- `RunFieldSpec.model_validate`. -/
def modelValidate (host : PluginHost) (raw : PyObject) : Except PluginError RunFieldSpec :=
  let refused := Except.error { kind := "ValidationError", message := host.invalidField raw }
  match raw with
  | .runField _ field => .ok field
  | .dict fields => (ofFields fields).elim refused .ok
  | _ => refused

end RunFieldSpec

/-! ## Metadata -/

def commonConfigFields : List String :=
  ["plugin", "name", "working_directory", "shell", "source", "command", "labels", "mutex_keys",
    "custom", "stop",
    "variables", "project"]

def supportedDeferredVariables : List String := ["case", "seed"]

/-- The text of `sorted(...)` over a set of strings. -/
def sortedText (items : List String) : String := (Json.arr ((Db.sortedSet items).map .str)).repr

/-- A set of strings, or nothing. -/
def stringSet : PyObject → Option (List String)
  | .set items => items.mapM PyObject.str?
  | _ => none

/-- `None`, or a Pydantic model. -/
def optionalModel : PyObject → Option (Option Nat)
  | .none => some none
  | .model id => some (some id)
  | _ => none

def raiseIf (condition : Bool) (e : PluginError) : Except PluginError Unit :=
  if condition then .error e else .ok ()

section Metadata
variable (host : PluginHost) (name : String) (instance' : Instance)

/-- The entries of `run_fields`. -/
def runFieldItems : Except PluginError (List PyObject) := do
  match ← instance'.get "run_fields" with
  | .list items => .ok items
  | _ => .error (.typeError ("plugin " ++ name ++ " run_fields must be a list"))

/-- `_allowed_inputs`. -/
def allowedInputs : Except PluginError (List String) := do
  let (items, raises) ← (← instance'.get "run_fields").iterate
  let fields ← items.mapM (RunFieldSpec.modelValidate host)
  match raises with
  | some e => .error e
  | none => .ok (fields.flatMap (fun field => field.name :: field.countField.toList ++
      field.defaultCountField.toList))

def checkStatuses : List (PyObject × PyObject) → Except PluginError Unit
  | [] => .ok ()
  | (.str key, .dict fields) :: rest =>
    match PyObject.get? fields "label" with
    | some (.str _) => checkStatuses rest
    | _ => .error (.typeError ("plugin " ++ name ++ " status " ++ key ++ " must have a label"))
  | _ :: _ => .error (.typeError ("plugin " ++ name ++ " has an invalid status definition"))

/-- The statuses that results, the lifecycle and an interrupt refer to. -/
def referencedStatuses : Except PluginError (List PyKey) := do
  let results ← (← (← instance'.getattr "result_statuses" (.dict [])).values).mapM PyObject.hash
  let lifecycle ← (← (← instance'.getattr "lifecycle_statuses" (.dict [])).values).mapM PyObject.hash
  let interrupted ← instance'.getattr "interrupt_status" .none
  if interrupted.truthy then return results ++ lifecycle ++ [← interrupted.hash]
  else return results ++ lifecycle

/-- `_validate_metadata`. -/
def validateMetadata : Except PluginError Unit := do
  let fields ← (← runFieldItems name instance').mapM (RunFieldSpec.modelValidate host)
  raiseIf (!decide (fields.map RunFieldSpec.name).Nodup)
    (.valueError ("plugin " ++ name ++ " run_fields must have unique names"))
  let required ← instance'.getattr "required_common_fields" (.set [])
  raiseIf (stringSet required).isNone
    (.typeError ("plugin " ++ name ++ " required_common_fields must be a set of strings"))
  let deferred ← instance'.getattr "deferred_variables" (.set [])
  let some deferred := stringSet deferred
    | .error (.typeError ("plugin " ++ name ++ " deferred_variables must be a set of strings"))
  let unsupported := deferred.filter (· ∉ supportedDeferredVariables)
  raiseIf (!unsupported.isEmpty)
    (.valueError ("plugin " ++ name ++ " declares unsupported deferred variables: " ++
      sortedText unsupported))
  let some configModel := optionalModel (← instance'.getattr "config_model" .none)
    | .error (.typeError ("plugin " ++ name ++ " config_model must be a Pydantic model"))
  let some inputModel := optionalModel (← instance'.getattr "input_model" .none)
    | .error (.typeError ("plugin " ++ name ++ " input_model must be a Pydantic model"))
  if let some inputModel := inputModel then
    let declared ← allowedInputs host instance'
    let inputs := host.modelFields inputModel
    raiseIf (!(declared.all (· ∈ inputs) && inputs.all (· ∈ declared)))
      (.valueError ("plugin " ++ name ++ " input_model fields differ from run fields: missing=" ++
        sortedText (declared.filter (· ∉ inputs)) ++ ", extra=" ++
          sortedText (inputs.filter (· ∉ declared))))
  if let some configModel := configModel then
    let collisions := (host.modelFields configModel).filter (· ∈ commonConfigFields)
    raiseIf (!collisions.isEmpty)
      (.valueError ("plugin " ++ name ++ " config fields overlap common fields: " ++
        sortedText collisions))
  let named := match ← instance'.getattr "example" (.dict [(.str "plugin", .str name)]) with
    | .dict fields => (PyObject.get? fields "plugin").bind PyObject.str? = some name
    | _ => false
  raiseIf (!named) (.typeError ("plugin " ++ name ++ " example must be an object naming that plugin"))
  let .dict apiInputs := ← instance'.getattr "api_inputs" (.dict [])
    | .error (.typeError ("plugin " ++ name ++ " api_inputs must be an object"))
  if let some inputModel := inputModel then
    if let some e := host.modelValidate inputModel (.dict apiInputs) then .error e
  let .dict statuses := ← instance'.getattr "statuses" (.dict [])
    | .error (.typeError ("plugin " ++ name ++ " statuses must be an object"))
  checkStatuses name statuses
  let missing := (← referencedStatuses instance').filter
    (fun key => key ∉ statuses.filterMap (fun status => status.1.key))
  if missing ≠ [] then
    .error (.valueError ("plugin " ++ name ++ " references undefined statuses: " ++
      (← host.sorted missing)))

end Metadata

/-! ## Loading -/

/-- A call of `@plugin`, with what calling the class gives. -/
structure Registration where
  name : String
  version : String
  create : Except PluginError Instance

/-- What executing a file leaves: its registrations, and the exception that ended it. -/
structure Module where
  registrations : List Registration
  raises : Option PluginError

/-- A file `*.py`: its bytes, whether the import system has a loader for it, and what it does under
a module name. -/
structure PluginScript where
  name : String
  bytes : Except PluginError (List UInt8)
  spec : Bool
  execModule : String → Module

/-- The plugin files in the order of their names. -/
structure PluginDirectory where
  files : List PluginScript
  ordered : (files.map PluginScript.name).Pairwise (· < ·)

structure PluginEntry where
  name : String
  version : String
  digest : String
  generation : Nat
  instance' : Instance
  path : String

abbrev Candidates := List (PyKey × PluginEntry)

structure PluginRegistry where
  directory : String
  generation : Nat
  plugins : Candidates
  diagnostics : List (String × String)

namespace Registration

/-- `fields` serve as `run_fields` where there are none. -/
def withRunFields (created : Instance) : Except PluginError Instance := do
  if ← created.hasattr "run_fields" then return created
  if ← created.hasattr "fields" then created.set "run_fields" (← created.get "fields")
  else return created

def isPlugin (instance' : Instance) : Except PluginError Bool := do
  if ← instance'.hasattr "run_fields" then return (← instance'.getattr "expand" .none).callable
  else return false

/-- The object of a class that may serve as a plugin. -/
def build (host : PluginHost) (registration : Registration) : Except PluginError Instance := do
  let instance' ← withRunFields (← registration.create)
  raiseIf (!(← isPlugin instance'))
    (.typeError ("plugin " ++ registration.name ++ " must define run_fields and expand"))
  validateMetadata host registration.name instance'
  return instance'

end Registration

def duplicatePlugin (name : String) : PluginError := .valueError ("duplicate plugin name: " ++ name)

section Load
variable (host : PluginHost)

/-- The loop over the aliases of a plugin. -/
def enterAliases (loaded : PluginEntry) (raises : Option PluginError) :
    List PyObject → Candidates → Candidates × Option PluginError
  | [], candidates => (candidates, raises)
  | other :: rest, candidates =>
    match other.hash with
    | .error e => (candidates, some e)
    | .ok key =>
      if key ∈ candidates.map Prod.fst then (candidates, some (duplicatePlugin (host.text other)))
      else enterAliases loaded raises rest (candidates ++ [(key, loaded)])

/-- The loop over the registrations of a file. -/
def enterPlugins (digest : String) (generation : Nat) (path : String) :
    List Registration → Candidates → Candidates × Option PluginError
  | [], candidates => (candidates, none)
  | registration :: rest, candidates =>
    if .str registration.name ∈ candidates.map Prod.fst then
      (candidates, some (duplicatePlugin registration.name))
    else
      match registration.build host with
      | .error e => (candidates, some e)
      | .ok instance' =>
        let loaded := ⟨registration.name, registration.version, digest, generation, instance', path⟩
        let entered := candidates ++ [(.str registration.name, loaded)]
        match instance'.getattr "aliases" (.list []) >>= PyObject.iterate with
        | .error e => (entered, some e)
        | .ok (items, raises) =>
          match enterAliases host loaded raises items entered with
          | (candidates, some e) => (candidates, some e)
          | (candidates, none) => enterPlugins digest generation path rest candidates

/-- `path.stem`. -/
def PluginScript.stem (file : PluginScript) : String :=
  String.ofList (file.name.toList.dropLast.dropLast.dropLast)

def PluginScript.moduleName (host : PluginHost) (generation : Nat) (file : PluginScript)
    (bytes : List UInt8) : String :=
  "localflow_user_plugin_" ++ toString generation ++ "_" ++ file.stem ++ "_" ++
    String.ofList ((host.sha256 bytes).toList.take 8)

def PluginScript.path (directory : String) (file : PluginScript) : String :=
  directory ++ "/" ++ file.name

/-- The `try` block of one file. -/
def loadFile (directory : String) (generation : Nat) (file : PluginScript) (candidates : Candidates) :
    Candidates × Option PluginError :=
  match file.bytes with
  | .error e => (candidates, some e)
  | .ok bytes =>
    if !file.spec then
      (candidates, some { kind := "ImportError", message := "cannot load " ++ file.path directory })
    else
      match file.execModule (file.moduleName host generation bytes) with
      | ⟨_, some e⟩ => (candidates, some e)
      | ⟨registrations, none⟩ =>
        enterPlugins host (host.sha256 bytes) generation (file.path directory) registrations candidates

def loadFiles (directory : String) (generation : Nat) :
    List PluginScript → Candidates → List (String × String) →
      Except PluginError (Candidates × List (String × String))
  | [], candidates, diagnostics => .ok (candidates, diagnostics)
  | file :: rest, candidates, diagnostics =>
    match loadFile host directory generation file candidates with
    | (candidates, none) => loadFiles directory generation rest candidates diagnostics
    | (candidates, some e) =>
      if e.isException then
        loadFiles directory generation rest candidates (diagnostics ++ [(file.path directory, e.text)])
      else .error e

/-- `PluginRegistry.load`. An exception that passes leaves the registry as it was. -/
def PluginRegistry.load (registry : PluginRegistry) (directory : PluginDirectory) :
    Except PluginError PluginRegistry := do
  let generation := registry.generation + 1
  let (candidates, diagnostics) ← loadFiles host registry.directory generation directory.files [] []
  if candidates ≠ [] ∨ registry.plugins = [] then
    return { registry with plugins := candidates, generation, diagnostics }
  else return { registry with diagnostics }

end Load

end LocalFlow
