import LocalFlow.Models

/-! What the two executors answer about the process tree of one task. The subprocess executor holds
the processes of its own controller; the systemd executor asks about a transient unit, which
outlives the controller, and reads the exit code its supervisor leaves in a file. -/
namespace LocalFlow

inductive Backend where
  | subprocess | systemd
  deriving DecidableEq

/-- The exit code kept for a task: `returncode` of a held process, or the `.exit` file, which reads
back as nothing while it is only partly written. -/
inductive ExitRecord where
  | missing | unreadable | code (code : Int)
  deriving DecidableEq

/-- A launch and what became of it. A `requested` launch has left the controller and is neither
accepted nor refused yet. -/
inductive Tree where
  | idle | requested | refused
  | alive (record : ExitRecord)
  | gone (record : ExitRecord)
  deriving DecidableEq

namespace Tree

/-- The unit owns a process. -/
def owns : Tree → Bool
  | alive _ => true
  | _ => false

/-- A process may still come of a launch that has left the controller. -/
def pending : Tree → Bool
  | requested => true
  | _ => false

def record : Tree → ExitRecord
  | alive record | gone record => record
  | _ => .missing

/-- `wait` of the subprocess executor forgets the process it has collected. -/
def collect (backend : Backend) : Tree → Tree
  | gone record => if backend = .subprocess then gone .missing else gone record
  | tree => tree

/-- The files of a deleted task are unlinked. -/
def unlink (backend : Backend) : Tree → Tree
  | alive record => if backend = .systemd then alive .missing else alive record
  | gone record => if backend = .systemd then gone .missing else gone record
  | tree => tree

/-- Units and processes outlive neither the host nor, for subprocesses, the handles on them. -/
def reboot : Tree → Tree
  | requested => refused
  | alive record => gone record
  | tree => tree

/-- A controller that dies loses every handle on a subprocess; units and launches go on. -/
def orphan (backend : Backend) (tree : Tree) : Tree :=
  if backend = .subprocess then idle else tree

@[simp] theorem owns_unlink (backend : Backend) (tree : Tree) :
    (tree.unlink backend).owns = tree.owns := by
  cases tree <;> cases backend <;> rfl

@[simp] theorem pending_unlink (backend : Backend) (tree : Tree) :
    (tree.unlink backend).pending = tree.pending := by
  cases tree <;> cases backend <;> rfl

@[simp] theorem owns_reboot (tree : Tree) : tree.reboot.owns = false := by
  cases tree <;> rfl

@[simp] theorem pending_reboot (tree : Tree) : tree.reboot.pending = false := by
  cases tree <;> rfl

end Tree

/-- `is_running`: the systemd executor asks about the recorded reference only. -/
def isRunning (backend : Backend) (executorRef : Option String) (tree : Tree) : Bool :=
  match backend with
  | .subprocess => tree.owns
  | .systemd => executorRef.any (· ≠ "") && tree.owns

/-- `completed_code`; `none` is the error of a file that does not read as a number. -/
def completedCode (backend : Backend) (tree : Tree) : Option (Option Int) :=
  match backend, tree with
  | .subprocess, .gone (.code code) => some (some code)
  | .subprocess, _ => some none
  | .systemd, _ =>
    match tree.record with
    | .missing => some none
    | .unreadable => none
    | .code code => some (some code)

inductive WaitAnswer where
  | pending | raised | exited (code : Int)
  deriving DecidableEq

/-- What `wait` would return now. A unit that is gone and left no exit code was killed. -/
def waitAnswer (backend : Backend) (tree : Tree) : WaitAnswer :=
  match backend with
  | .subprocess =>
    match tree with
    | .alive _ => .pending
    | .gone (.code code) => .exited code
    | _ => .raised
  | .systemd =>
    if tree.owns then .pending
    else match tree.record with
      | .missing => .exited 137
      | .unreadable => .raised
      | .code code => .exited code

/-- The reference `start` returns: the pid of a process or the name of a unit. -/
def startReference (backend : Backend) (namespaceHash : String) (id : TaskId) (pid : Nat) : String :=
  match backend with
  | .subprocess => "process:" ++ toString pid
  | .systemd => "localflow-" ++ namespaceHash ++ "-task-" ++ id ++ ".service"

/-- The systemd executor reports no pid. -/
def startPid (backend : Backend) (pid : Nat) : Option Nat :=
  match backend with
  | .subprocess => some pid
  | .systemd => none

end LocalFlow
