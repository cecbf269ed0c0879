import LocalFlow.Library.Numeral
import Mathlib.Data.Rat.Init
import Mathlib.Data.Rat.Defs
import Mathlib.Algebra.Order.Ring.Unbundled.Rat

/-! Task data of `models.py`: states, stop strategies, drafts and stored records. JSON columns hold
values of `Json`; validated models carry their validator as a field. -/
namespace LocalFlow

abbrev TaskId := String
abbrev Seconds := Rat

/-- A decoded JSON value. A float keeps the text Python prints for it. -/
inductive Json where
  | null
  | bool (b : Bool)
  | int (n : Int)
  | float (repr : String)
  | str (s : String)
  | arr (items : List Json)
  | obj (fields : List (String × Json))

abbrev Object := List (String × Json)

namespace Json

def get? (fields : Object) (key : String) : Option Json := fields.lookup key

/-- `dict[key] = value`. A key that is there keeps its place. -/
def assign (dict : Object) (key : String) (value : Json) : Object :=
  if key ∈ dict.map Prod.fst then dict.map (fun entry => if entry.1 = key then (key, value) else entry)
  else dict ++ [(key, value)]

/-- `value.get(...)` needs a dictionary; anything else raises `AttributeError`. -/
def asObject? : Json → Option Object
  | .obj fields => some fields
  | _ => none

/-- Lists and dictionaries cannot be dictionary keys. -/
def hashable : Json → Bool
  | .arr _ | .obj _ => false
  | _ => true

def truthy : Json → Bool
  | .null => false
  | .bool b => b
  | .int n => n != 0
  | .float repr => repr != "0.0" && repr != "-0.0"
  | .str s => s != ""
  | .arr items => !items.isEmpty
  | .obj fields => !fields.isEmpty

def singleQuote : Char := Char.ofNat 39
def doubleQuote : Char := Char.ofNat 34
def backslash : Char := Char.ofNat 92

/-- One character of `repr`. Characters above Latin-1 count as printable. -/
def reprChar (quote c : Char) : List Char :=
  if c = quote ∨ c = backslash then [backslash, c]
  else if c = '\n' then [backslash, 'n']
  else if c = '\r' then [backslash, 'r']
  else if c = '\t' then [backslash, 't']
  else if c.toNat < 32 ∨ 127 ≤ c.toNat ∧ c.toNat ≤ 160 ∨ c.toNat = 173 then
    [backslash, 'x', Numeral.digitChar (c.toNat / 16), Numeral.digitChar (c.toNat % 16)]
  else [c]

def reprString (s : String) : String :=
  let quote :=
    if singleQuote ∈ s.toList ∧ doubleQuote ∉ s.toList then doubleQuote else singleQuote
  String.ofList (quote :: s.toList.flatMap (reprChar quote) ++ [quote])

mutual
def repr : Json → String
  | .null => "None"
  | .bool b => if b then "True" else "False"
  | .int n => toString n
  | .float text => text
  | .str s => reprString s
  | .arr items => "[" ++ reprItems items ++ "]"
  | .obj fields => "\x7b" ++ reprFields fields ++ "\x7d"

def reprItems : List Json → String
  | [] => ""
  | [item] => repr item
  | item :: rest => repr item ++ ", " ++ reprItems rest

def reprFields : List (String × Json) → String
  | [] => ""
  | [(key, value)] => reprString key ++ ": " ++ repr value
  | (key, value) :: rest => reprString key ++ ": " ++ repr value ++ ", " ++ reprFields rest
end

/-- Python's `str`. -/
def text : Json → String
  | .str s => s
  | value => repr value

end Json

inductive TaskState where
  | queued | starting | running | stopping | succeeded | failed | cancelled | lost
  deriving DecidableEq, Repr

namespace TaskState

def value : TaskState → String
  | queued => "queued"
  | starting => "starting"
  | running => "running"
  | stopping => "stopping"
  | succeeded => "succeeded"
  | failed => "failed"
  | cancelled => "cancelled"
  | lost => "lost"

/-- Membership in `TERMINAL_STATES`. -/
def terminal : TaskState → Bool
  | succeeded | failed | cancelled | lost => true
  | _ => false

/-- States that hold mutex keys and count against the concurrency limit. -/
def active : TaskState → Bool
  | starting | running | stopping => true
  | _ => false

def all : List TaskState :=
  [queued, starting, running, stopping, succeeded, failed, cancelled, lost]

theorem mem_all (state : TaskState) : state ∈ all := by cases state <;> decide

theorem active_or (state : TaskState) :
    state = queued ∨ state.active = true ∨ state.terminal = true := by
  cases state <;> simp [active, terminal]

@[simp] theorem active_not_terminal {state : TaskState} (h : state.active = true) :
    state.terminal = false := by
  cases state <;> simp_all [active, terminal]

end TaskState

structure TaskStatus where
  key : String
  label : String
  tone : String
  finished : Bool
  deriving DecidableEq, Repr

inductive StopSignal where
  | sigint | sigterm
  deriving DecidableEq, Repr

inductive StopKind where
  | signal | input | exec
  deriving DecidableEq, Repr

/-- The one populated field among `signal`, `data` and `command`. -/
inductive StopCall where
  | signal (signal : StopSignal)
  | input (data : String)
  | exec (command : List String)
  deriving DecidableEq, Repr

def StopCall.kind : StopCall → StopKind
  | .signal _ => .signal
  | .input _ => .input
  | .exec _ => .exec

/-- `StopAction` after validation: the fields carry the model's checks. -/
structure StopAction where
  call : StopCall
  timeoutSeconds : Seconds
  extendTimeoutOnOutput : Bool
  maxTimeoutSeconds : Option Seconds
  outputContains : Option String
  label : Option String
  timeout_range : 0 ≤ timeoutSeconds ∧ timeoutSeconds ≤ 86400
  max_range : ∀ m, maxTimeoutSeconds = some m → timeoutSeconds ≤ m ∧ m ≤ 86400
  extend_bounded : extendTimeoutOnOutput = true → maxTimeoutSeconds ≠ none
  needle_range : ∀ n, outputContains = some n → 1 ≤ n.length ∧ n.length ≤ 512

structure StopStrategy where
  actions : List StopAction
  count : 1 ≤ actions.length ∧ actions.length ≤ 8

/-- A grace period accepted as `timeout_seconds` of a stop action. -/
def Grace := { seconds : Seconds // 0 ≤ seconds ∧ seconds ≤ 86400 }

theorem two_seconds_range : (0 : Seconds) ≤ 2 ∧ (2 : Seconds) ≤ 86400 := by decide

def StopAction.default (signal : StopSignal) (grace : Grace) : StopAction where
  call := .signal signal
  timeoutSeconds := grace.val
  extendTimeoutOnOutput := false
  maxTimeoutSeconds := none
  outputContains := none
  label := none
  timeout_range := grace.property
  max_range := by simp
  extend_bounded := by simp
  needle_range := by simp

/-- `interrupt_stage`: how far the stop of a task has been recorded. -/
inductive InterruptStage where
  | queued
  | requested
  | stop (index : Nat) (kind : StopKind)
  | sigkill
  deriving DecidableEq, Repr

structure TaskCreate where
  name : String
  workingDirectory : String
  command : List String
  labels : List String
  mutexKeys : List String
  custom : Object
  template : Option String
  pluginSnapshot : Object
  stop : Option StopStrategy

/-- A draft that asks for some mutex keys and nothing else. -/
def TaskCreate.keyed (mutexKeys : List String) : TaskCreate where
  name := "task"
  workingDirectory := "/"
  command := ["true"]
  labels := []
  mutexKeys
  custom := []
  template := none
  pluginSnapshot := []
  stop := none

structure TaskRecord extends TaskCreate where
  id : TaskId
  state : TaskState
  createdAt : String
  startedAt : Option String
  endedAt : Option String
  exitCode : Option Int
  pid : Option Nat
  executorRef : Option String
  interruptStage : Option InterruptStage
  blockedBy : List String
  blockedKeys : List String
  logSize : Nat
  startedMonotonic : Option Seconds
  elapsedSeconds : Option Seconds
  status : TaskStatus

structure EventRecord where
  id : Nat
  taskId : Option TaskId
  kind : String
  recordedAt : String

end LocalFlow
