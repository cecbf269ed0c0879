import LocalFlow.Versioning

/-! The configuration root and `initialize_config_root`: the operations on the file system one by
one, so that any number of processes can make theirs between each other's and stop at any of them.
The root is there, its symbolic links lead out of it, and the modes are left out. -/
namespace LocalFlow.ConfigRoot

/-! ## The file system -/

/-- What a symbolic link leads to. -/
inductive Target where
  | nothing | directory
  | file (bytes : List UInt8)
  deriving DecidableEq

/-- What a directory has under a name. -/
inductive Entry where
  | directory
  | file (bytes : List UInt8)
  | link (target : Target)
  deriving DecidableEq

/-- A path below the root, or the temporary file of a process for one: its name has the number of
the process and eight random bytes. -/
inductive Place where
  | path (relative : String)
  | temporary (pid : Nat) (destination : String)
  deriving DecidableEq

/-- What is below the root. -/
def Workspace := Place → Option Entry

namespace Workspace

def put (w : Workspace) (place : Place) (entry : Option Entry) : Workspace :=
  Function.update w place entry

def isSymlink (w : Workspace) (path : String) : Bool :=
  match w (.path path) with
  | some (.link _) => true
  | _ => false

/-- `Path.exists`. -/
def isThere (w : Workspace) (path : String) : Bool :=
  match w (.path path) with
  | none | some (.link .nothing) => false
  | _ => true

def isFile (w : Workspace) (path : String) : Bool :=
  match w (.path path) with
  | some (.file _) | some (.link (.file _)) => true
  | _ => false

/-- `path.read_text(encoding="utf-8")`. -/
def readText (w : Workspace) (path : String) : Option String :=
  let decoded (bytes : List UInt8) :=
    (String.fromUTF8? ⟨bytes.toArray⟩).map (fun text => String.ofList (newlines text.toList))
  match w (.path path) with
  | some (.file bytes) | some (.link (.file bytes)) => decoded bytes
  | _ => none

end Workspace

/-- `text.encode("utf-8")`. -/
def encoded (text : String) : List UInt8 := text.toUTF8.data.toList

/-! ## What a process has to do -/

/-- The parts of the package: `hashlib.sha256`, the starter root and the bundled plugins. -/
structure Package where
  sha256 : List UInt8 → String
  starter : String → String
  builtin : String → String

/-- The `path.name` of a plugin. -/
inductive Builtin where
  | verification | command
  deriving DecidableEq

def Builtin.name : Builtin → String
  | .verification => "verification.py"
  | .command => "command.py"

def Builtin.path (plugin : Builtin) : String := "plugins/" ++ plugin.name

/-- `_KNOWN_BUNDLED_PLUGIN_DIGESTS`. -/
def knownBundledPluginDigests : Builtin → List String
  | .verification =>
    ["d2218dbb4f6dab678629cc9941000f0960c3c5f41b99c9b22074f91929986111",
      "feefbb2dc3de11ab4eb9779b363a0d273d0ccad50ded0ee327d87dd3a90010aa",
      "130aa8f639de371deac43dfb1aae6c0518b57bf6f7fbbdc1a7881cfddce8d239",
      "7fe5ffde7af4efd2c8157c33a127a24763f899d9243dfca8ab7837d9d8f58dc8",
      "49b5e857c257efb1de3af37e4674c80fa35ce268b06906f7cc92ad0b4b4a2ffd",
      "995bbe2050d0c5c16cc0c336e9927b7d077d8ded09a06ccb01429494f23f2975",
      "f7b013dfea1c62f2d37577c4f5425aa91e99c83eb320a40da7a9ab4f120f9b6d",
      "3d88a1c66203733a44934b74651b918142a1718b592d23844365cb359e860856",
      "e521bd377614f9b9a330829726b65b2cf37f5f0a59b033a094a536179319139a",
      "354cdb8005c131eb8c3d8db4677784be32e6850d27fb0e1d96748f8303956005",
      "4fc099555f0f03457ffd670cdf10f36c0b714b20fe13795fcfa3c02fa02464e9",
      "9a4030d32622c0a7ba69c1b6d990cfa588235be2f65d699bff23fbc8ed5178e7"]
  | .command =>
    ["e73ad6a653f86af6bc3c9e55d0588cfda18f74b870978c226ad3dc0d39fc79a9",
      "0a80e82a3178b4271127b818ee551221398df3c2d63f04aaca7a30203c101ee6",
      "b0708115a37c6f00b766cac504e1199ea619eb2221146de5f15d9885721b9d43"]

/-- `text.rstrip("\n")`. -/
def rstripNewlines (text : List Char) : List Char := (text.reverse.dropWhile (· = '\n')).reverse

/-- `_normalized_text_digest`. -/
def Package.normalizedTextDigest (pkg : Package) (text : String) : String :=
  pkg.sha256 (encoded (String.ofList (rstripNewlines (newlines text.toList) ++ ['\n'])))

def config : String := "config.yaml"

/-- The configuration files of former versions. -/
inductive Former where
  | previous | legacy
  deriving DecidableEq

def Former.path : Former → String
  | .previous => "localflow.yaml"
  | .legacy => "config/server.yaml"

def defaultConfig : String :=
  "# LocalFlow reads this file only when it starts. Restart after editing.\n" ++
  "server:\n" ++
  "  # 0 asks Ubuntu for an available port; use 1-65535 for a fixed port.\n" ++
  "  port: 0\n" ++
  "execution:\n" ++
  "  # auto uses systemd when its user manager is available, otherwise subprocess.\n" ++
  "  backend: auto\n" ++
  "  # unlimited adds no task-slot limit; legacy auto has the same behavior.\n" ++
  "  max_concurrency: unlimited\n" ++
  "retention:\n" ++
  "  # One duration covers task details and terminal output.\n" ++
  "  task_days: 3\n"

def directories : List String :=
  ["config", "config/command", "config/verification", "scripts", "plugins", "secrets"]

/-- The starter files and the directories they are in, below the root. -/
def starters : List (String × Option String) :=
  [("config/command/hello-world.yaml", some "config/command"),
    ("config/verification/demo.yaml", some "config/verification"),
    ("Makefile", none), ("scripts/simulate.py", some "scripts")]

def readme : String := "plugins/README.md"

/-- How a temporary file gets to its destination. -/
inductive Publishing where
  | link
  | replace (plugin : Builtin)
  deriving DecidableEq

/-- One operation on the file system, with what the process does after it. -/
inductive Op where
  /-- `path.mkdir(parents=True, exist_ok=True)`. -/
  | makeDirectory (path : String)
  /-- `former.is_file()`. -/
  | askFormer (former : Former)
  /-- `not config.exists()` beside it. -/
  | askBeside (former : Former)
  /-- `former.replace(config)`. -/
  | move (former : Former)
  /-- `if not destination.exists()` of a caller of `_write_text_if_missing`. -/
  | provide (destination text : String)
  /-- The same for a starter file, where a link counts. -/
  | provideStarter (destination : String) (parent : Option String) (text : String)
  | makeParent (destination parent text : String)
  /-- `_write_text_if_missing`. -/
  | writeTextIfMissing (destination text : String)
  /-- `_install_or_upgrade_builtin_plugin`. -/
  | installOrUpgrade (plugin : Builtin) (text : String)
  | askExisted (plugin : Builtin) (text : String)
  | readExisting (plugin : Builtin) (text : String)
  /-- The temporary file is made, then it is written. -/
  | create (way : Publishing) (destination text : String)
  | fill (way : Publishing) (destination text : String) (written : Nat)
  /-- `os.link(temporary, destination)`. -/
  | link (destination text : String)
  /-- `os.replace(temporary, destination)`. -/
  | replace (plugin : Builtin) (text : String) (attempt : Nat)
  /-- What follows a `PermissionError` of it. -/
  | recheck (plugin : Builtin) (text : String) (attempt : Nat)
  /-- `temporary.unlink(missing_ok=True)`, before an exception or not. -/
  | discard (destination : String) (raises : Bool)
  deriving DecidableEq

/-- What an operation leaves, with the operation the process makes next before it goes on. -/
inductive Outcome where
  | next (w : Workspace) (op : Option Op)
  | raise (w : Workspace)

/-- `initialize_config_root`. The choice of the configuration file begins with the question for the
previous one. -/
def initializeConfigRoot (pkg : Package) : List Op :=
  directories.map .makeDirectory ++ [.askFormer .previous] ++
    starters.map (fun entry => .provideStarter entry.1 entry.2 (pkg.starter entry.1)) ++
    [Builtin.verification, .command].map
      (fun plugin => .installOrUpgrade plugin (pkg.builtin plugin.name)) ++
    [.provide readme (pkg.builtin "README.md")]

/-- Once both former files are ruled out or one has been moved. -/
def provideConfig : Op := .provide config defaultConfig

/-- The operations of a process. `more` bytes of a temporary file get written at a time. -/
def perform (pkg : Package) (w : Workspace) (pid more : Nat) : Op → Outcome
  | .makeDirectory path =>
    match w (.path path) with
    | none => .next (w.put (.path path) (some .directory)) none
    | some .directory | some (.link .directory) => .next w none
    | some _ => .raise w
  | .askFormer former =>
    if w.isFile former.path then .next w (some (.askBeside former))
    else match former with
      | .previous => .next w (some (.askFormer .legacy))
      | .legacy => .next w (some provideConfig)
  | .askBeside former =>
    if w.isThere config then
      match former with
      | .previous => .next w (some (.askFormer .legacy))
      | .legacy => .next w (some provideConfig)
    else .next w (some (.move former))
  | .move former =>
    match w (.path former.path) with
    | none => .next w (some provideConfig)
    | some entry =>
      if w (.path config) = some .directory then .raise w
      else .next ((w.put (.path config) (some entry)).put (.path former.path) none) (some provideConfig)
  | .provide destination text =>
    .next w (if w.isThere destination then none else some (.writeTextIfMissing destination text))
  | .provideStarter destination parent text =>
    if w.isThere destination || w.isSymlink destination then .next w none
    else match parent with
      | some parent => .next w (some (.makeParent destination parent text))
      | none => .next w (some (.writeTextIfMissing destination text))
  | .makeParent destination parent text =>
    match w (.path parent) with
    | none => .next (w.put (.path parent) (some .directory))
        (some (.writeTextIfMissing destination text))
    | some .directory | some (.link .directory) => .next w (some (.writeTextIfMissing destination text))
    | some _ => .raise w
  | .writeTextIfMissing destination text =>
    .next w (if w.isThere destination || w.isSymlink destination then none
      else some (.create .link destination text))
  | .installOrUpgrade plugin text =>
    .next w (if w.isSymlink plugin.path then none else some (.askExisted plugin text))
  | .askExisted plugin text =>
    .next w (some (if w.isThere plugin.path then .readExisting plugin text
      else .create .link plugin.path text))
  | .readExisting plugin text =>
    match w.readText plugin.path with
    | none => .raise w
    | some existing =>
      if pkg.normalizedTextDigest existing = pkg.normalizedTextDigest text then .next w none
      else if pkg.normalizedTextDigest existing ∉ knownBundledPluginDigests plugin then .next w none
      else .next w (some (.create (.replace plugin) plugin.path text))
  | .create way destination text =>
    .next (w.put (.temporary pid destination) (some (.file []))) (some (.fill way destination text 0))
  | .fill way destination text written =>
    if written + more < (encoded text).length then
      .next (w.put (.temporary pid destination) (some (.file ((encoded text).take (written + more)))))
        (some (.fill way destination text (written + more)))
    else
      .next (w.put (.temporary pid destination) (some (.file (encoded text)))) (some (match way with
        | .link => .link destination text
        | .replace plugin => .replace plugin text 0))
  | .link destination _ =>
    match w (.temporary pid destination), w (.path destination) with
    | none, _ => .next w (some (.discard destination true))
    | some entry, none =>
      .next (w.put (.path destination) (some entry)) (some (.discard destination false))
    | some _, some _ => .next w (some (.discard destination false))
  | .replace plugin _ _ =>
    match w (.temporary pid plugin.path) with
    | none => .raise w
    | some entry =>
      if w (.path plugin.path) = some .directory then .raise w
      else .next ((w.put (.path plugin.path) (some entry)).put (.temporary pid plugin.path) none) none
  | .recheck plugin text attempt =>
    let onward := if attempt = 9 then Op.discard plugin.path true
      else .replace plugin text (attempt + 1)
    if w.isThere plugin.path then
      match w.readText plugin.path with
      | none => .raise w
      | some existing =>
        if pkg.normalizedTextDigest existing = pkg.normalizedTextDigest text then
          .next w (some (.discard plugin.path false))
        else .next w (some onward)
    else .next w (some onward)
  | .discard destination raises =>
    let w := w.put (.temporary pid destination) none
    if raises then .raise w else .next w none

/-- An operation that the system refuses. `os.replace` is tried again, and the temporary file for
`os.link` is removed. -/
def refuse (w : Workspace) : Op → Outcome
  | .replace plugin text attempt => .next w (some (.recheck plugin text attempt))
  | .link destination _ => .next w (some (.discard destination true))
  | _ => .raise w

/-! ## The processes -/

/-- A process that starts LocalFlow: what it has left to do, or it is gone. -/
inductive Process where
  | running (ops : List Op)
  | stopped
  deriving DecidableEq

structure State where
  workspace : Workspace
  process : Nat → Option Process

/-- What happens next: a process begins, makes an operation, is refused one or is killed. -/
inductive Label where
  | begin (pid : Nat)
  | step (pid more : Nat)
  | denied (pid : Nat)
  | kill (pid : Nat)

def State.resume (s : State) (pid : Nat) (rest : List Op) : Outcome → State
  | .next w op => ⟨w, Function.update s.process pid (some (.running (op.toList ++ rest)))⟩
  | .raise w => ⟨w, Function.update s.process pid (some .stopped)⟩

/-- A label that does not apply changes nothing. -/
def State.act (pkg : Package) (s : State) : Label → State
  | .begin pid =>
    match s.process pid with
    | none =>
      { s with
        process := Function.update s.process pid (some (.running (initializeConfigRoot pkg))) }
    | some _ => s
  | .step pid more =>
    match s.process pid with
    | some (.running (op :: rest)) => s.resume pid rest (perform pkg s.workspace pid more op)
    | _ => s
  | .denied pid =>
    match s.process pid with
    | some (.running (op :: rest)) => s.resume pid rest (refuse s.workspace op)
    | _ => s
  | .kill pid =>
    match s.process pid with
    | some _ => { s with process := Function.update s.process pid (some .stopped) }
    | none => s

/-- Processes that begin on a root and make their operations in any order. -/
def run (pkg : Package) (w : Workspace) (labels : List Label) : State :=
  labels.foldl (State.act pkg) ⟨w, fun _ => none⟩

/-! ## What becomes of the root -/

/-- The files that are written where there is none. -/
def texts (pkg : Package) : List (String × String) :=
  starters.map (fun entry => (entry.1, pkg.starter entry.1)) ++ [(readme, pkg.builtin "README.md")]

/-- What the package has for a plugin. -/
def Package.source (pkg : Package) (plugin : Builtin) : String := pkg.builtin plugin.name

/-- A plugin is one that a former version installed, unchanged since. -/
def Outdated (pkg : Package) (w : Workspace) (plugin : Builtin) : Prop :=
  w.isSymlink plugin.path = false ∧ ∃ existing, w.readText plugin.path = some existing ∧
    pkg.normalizedTextDigest existing ∈ knownBundledPluginDigests plugin ∧
    pkg.normalizedTextDigest existing ≠ pkg.normalizedTextDigest (pkg.source plugin)

/-- What there may be under a path that had `w₀ path`. -/
inductive Turns (pkg : Package) (w₀ : Workspace) : String → Option Entry → Prop where
  | same (path : String) : Turns pkg w₀ path (w₀ (.path path))
  | directory {path : String} (member : path ∈ directories) (absent : w₀ (.path path) = none) :
      Turns pkg w₀ path (some .directory)
  | text {path text : String} (member : (path, text) ∈ texts pkg) (absent : w₀ (.path path) = none) :
      Turns pkg w₀ path (some (.file (encoded text)))
  | installed (plugin : Builtin) (absent : w₀ (.path plugin.path) = none) :
      Turns pkg w₀ plugin.path (some (.file (encoded (pkg.source plugin))))
  | upgraded (plugin : Builtin) (outdated : Outdated pkg w₀ plugin) :
      Turns pkg w₀ plugin.path (some (.file (encoded (pkg.source plugin))))

/-- What becomes of the configuration file and of those of former versions. -/
inductive Adopts (w₀ w : Workspace) : Prop where
  | same (same : w (.path config) = w₀ (.path config))
      (formers : ∀ former : Former, w (.path former.path) = w₀ (.path former.path))
  | moved (former : Former) (isFile : w₀.isFile former.path = true) (unset : w₀.isThere config = false)
      (first : former = .legacy → w₀.isFile Former.previous.path = false)
      (adopted : w (.path config) = w₀ (.path former.path)) (gone : w (.path former.path) = none)
      (rest : ∀ other : Former, other ≠ former → w (.path other.path) = w₀ (.path other.path))
  | default (unset : w₀ (.path config) = none) (none : ∀ former : Former, w₀.isFile former.path = false)
      (written : w (.path config) = some (.file (encoded defaultConfig)))
      (formers : ∀ former : Former, w (.path former.path) = w₀ (.path former.path))

/-- Not a path of a configuration file. -/
def Apart (path : String) : Prop := path ≠ config ∧ ∀ former : Former, path ≠ former.path

structure Kept (pkg : Package) (w₀ w : Workspace) : Prop where
  others : ∀ path, Apart path → Turns pkg w₀ path (w (.path path))
  adopts : Adopts w₀ w

/-- The former files are not to be adopted any more. -/
def Ruled (w₀ w : Workspace) : Prop :=
  w.isThere config = true ∨ ∀ former : Former, w₀.isFile former.path = false

/-- What a process that came to its end has provided: something under every path, a configuration
file where there was one to adopt, and the plugins of this version. -/
structure Provided (pkg : Package) (w₀ w : Workspace) (path : String) : Prop where
  present : w (.path path) ≠ none
  adopted : path = config → Ruled w₀ w
  upgraded : ∀ plugin : Builtin, path = plugin.path → Outdated pkg w₀ plugin →
    w (.path path) = some (.file (encoded (pkg.source plugin)))

/-- What an operation is there to provide. -/
def Op.provides : Op → String
  | .makeDirectory path => path
  | .askFormer _ | .askBeside _ | .move _ => config
  | .provide destination _ | .provideStarter destination _ _ | .makeParent destination _
      _ | .writeTextIfMissing destination _ |
    .create _ destination _ | .fill _ destination _ _ | .link destination _ | .discard
      destination _ => destination
  | .installOrUpgrade plugin _ | .askExisted plugin _ | .readExisting plugin _ | .replace plugin _
      _ | .recheck plugin _ _ =>
    plugin.path

/-- What an initialized root has. -/
def provided : List String :=
  directories ++ [config] ++ starters.map Prod.fst ++
    [Builtin.verification, .command].map Builtin.path ++ [readme]

theorem provides_initializeConfigRoot (pkg : Package) :
    (initializeConfigRoot pkg).map Op.provides = provided := rfl

section Paths
variable {pkg : Package} {path text : String}

theorem apart_directory (member : path ∈ directories) : Apart path := by
  have decided : ∀ path ∈ directories, path ≠ config ∧ path ≠ Former.previous.path ∧
    path ≠ Former.legacy.path := by decide
  obtain ⟨notConfig, notPrevious, notLegacy⟩ := decided path member
  refine ⟨notConfig, fun former => ?_⟩
  cases former with
  | previous => exact notPrevious
  | legacy => exact notLegacy

theorem apart_plugin (plugin : Builtin) : Apart plugin.path := by
  refine ⟨?_, fun former => ?_⟩
  · cases plugin <;> decide
  · cases plugin <;> cases former <;> decide

theorem listed_of_text (member : (path, text) ∈ texts pkg) :
    path ∈ starters.map Prod.fst ++ [readme] := by
  have := List.mem_map_of_mem (f := Prod.fst) member
  simpa [texts] using this

theorem plugin_apart_texts (plugin : Builtin) : (plugin.path, text) ∉ texts pkg := by
  intro member
  have listed := listed_of_text member
  cases plugin <;> exact absurd listed (by decide)

theorem apart_text (member : (path, text) ∈ texts pkg) : Apart path := by
  have decided : ∀ path ∈ starters.map Prod.fst ++ [readme],
      path ≠ config ∧ path ≠ Former.previous.path ∧ path ≠ Former.legacy.path := by decide
  obtain ⟨notConfig, notPrevious, notLegacy⟩ := decided path (listed_of_text member)
  refine ⟨notConfig, fun former => ?_⟩
  cases former with
  | previous => exact notPrevious
  | legacy => exact notLegacy

end Paths

/-! ## What one operation does -/

/-- A file that may be written where there is none. -/
inductive Owes (pkg : Package) (w₀ w : Workspace) : String → String → Prop where
  | text {destination text : String}
      (member : (destination, text) ∈ texts pkg) : Owes pkg w₀ w destination text
  | plugin (plugin : Builtin) (fresh : ¬Outdated pkg w₀ plugin) : Owes pkg w₀ w plugin.path
      (pkg.source plugin)
  | settings (ruled : Ruled w₀ w) : Owes pkg w₀ w config defaultConfig

/-- The previous configuration file goes before the legacy one. -/
def Earlier (w₀ w : Workspace) (former : Former) : Prop :=
  former = .legacy → w.isThere config = true ∨ w₀.isFile Former.previous.path = false

def Publishing.Sound (pkg : Package) (w₀ w : Workspace) (way : Publishing)
    (destination text : String) : Prop :=
  match way with
  | .link => Owes pkg w₀ w destination text
  | .replace plugin => destination = plugin.path ∧ text = pkg.source plugin ∧ Outdated pkg w₀ plugin

/-- What a process knows when it comes to an operation. -/
def Op.Sound (pkg : Package) (w₀ w : Workspace) (pid : Nat) : Op → Prop
  | .makeDirectory path => path ∈ directories
  | .askFormer former => Earlier w₀ w former
  | .askBeside former => w₀.isFile former.path = true ∧ Earlier w₀ w former
  | .move former => w₀.isFile former.path = true ∧ w₀.isThere config = false ∧
      (former = .legacy → w₀.isFile Former.previous.path = false)
  | .provide destination text | .writeTextIfMissing destination text => Owes pkg w₀ w destination text
  | .provideStarter destination parent text => (destination, text) ∈ texts pkg ∧
      ∀ path, parent = some path → path ∈ directories
  | .makeParent destination parent text => (destination, text) ∈ texts pkg ∧ parent ∈ directories
  | .installOrUpgrade plugin text => text = pkg.source plugin
  | .askExisted plugin text => text = pkg.source plugin ∧ w₀.isSymlink plugin.path = false
  | .readExisting plugin text =>
    text = pkg.source plugin ∧ w₀.isSymlink plugin.path = false ∧ w (.path plugin.path) ≠ none
  | .create way destination text | .fill way destination text _ => way.Sound pkg w₀ w destination text
  | .link destination text =>
    Owes pkg w₀ w destination text ∧ w (.temporary pid destination) = some (.file (encoded text))
  | .replace plugin text _ | .recheck plugin text _ =>
    text = pkg.source plugin ∧ Outdated pkg w₀ plugin ∧
      w (.temporary pid plugin.path) = some (.file (encoded text))
  | .discard destination raises => raises = false → Provided pkg w₀ w destination

/-- What an operation can do to the root. -/
inductive Change (pkg : Package) (w₀ w : Workspace) (pid : Nat) : Workspace → Prop where
  | none : Change pkg w₀ w pid w
  | temporary (destination : String) (entry : Option Entry) : Change pkg w₀ w pid
      (w.put (.temporary pid destination) entry)
  | directory {path : String} (member : path ∈ directories) (absent : w (.path path) = Option.none) :
      Change pkg w₀ w pid (w.put (.path path) (some .directory))
  | link {destination text : String} (owes : Owes pkg w₀ w destination text)
      (absent : w (.path destination) = Option.none) :
      Change pkg w₀ w pid (w.put (.path destination) (some (.file (encoded text))))
  | replace (plugin : Builtin) (outdated : Outdated pkg w₀ plugin) :
      Change pkg w₀ w pid ((w.put (.path plugin.path) (some (.file (encoded (pkg.source plugin))))).put
        (.temporary pid plugin.path) Option.none)
  | move (former : Former) {entry : Entry} (isFile : w₀.isFile former.path = true)
      (unset : w₀.isThere config = false)
      (first : former = .legacy → w₀.isFile Former.previous.path = false)
        (found : w (.path former.path) = some entry) :
      Change pkg w₀ w pid ((w.put (.path config) (some entry)).put (.path former.path) Option.none)

section Workspaces
variable {w w' : Workspace} {place other : Place} {entry : Option Entry} {path : String}

@[simp] theorem put_same : w.put place entry place = entry := Function.update_self ..

@[simp] theorem put_temporary (pid : Nat) (destination : String) :
    w.put (.temporary pid destination) entry (.path path) = w (.path path) :=
  Function.update_of_ne (by simp) ..

theorem put_other (apart : other ≠ place) : w.put place entry other = w other :=
  Function.update_of_ne apart ..

theorem path_apart {other : String} (apart : path ≠ other) :
    Place.path path ≠ .path other := by simpa using apart

theorem present_apart {other : String} (present : w (.path path) ≠ none)
    (absent : w (.path other) = none) :
    Place.path path ≠ .path other := by
  intro same
  rw [same] at present
  exact present absent

theorem former_apart_config (former : Former) : former.path ≠ config := by cases former <;> decide

theorem former_injective {one other : Former} (same : one.path = other.path) : one = other := by
  cases one <;> cases other <;> first | rfl | exact absurd same (by decide)

theorem builtin_injective {one other : Builtin} (same : one.path = other.path) : one = other := by
  cases one <;> cases other <;> first | rfl | exact absurd same (by decide)

theorem isThere_congr (same : w' (.path path) = w (.path path)) : w'.isThere path = w.isThere path := by
  simp only [Workspace.isThere, same]

theorem isFile_congr {other : String} (same : w' (.path path) = w (.path other)) :
    w'.isFile path = w.isFile other := by
  simp only [Workspace.isFile, same]

theorem isThere_of_isFile (isFile : w.isFile path = true) : w.isThere path = true := by
  unfold Workspace.isFile at isFile
  unfold Workspace.isThere
  split at isFile <;> simp_all

theorem present_of_isThere (isThere : w.isThere path = true) : w (.path path) ≠ none := by
  intro absent
  simp [Workspace.isThere, absent] at isThere

theorem isThere_or_isSymlink : (w.isThere path || w.isSymlink path) = true ↔ w (.path path) ≠ none := by
  unfold Workspace.isThere Workspace.isSymlink
  split <;> split <;> simp_all

theorem isSymlink_congr (same : w' (.path path) = w (.path path)) :
    w'.isSymlink path = w.isSymlink path := by
  simp only [Workspace.isSymlink, same]

end Workspaces

section Changes
variable {pkg : Package} {w₀ w w' : Workspace} {pid : Nat} {path destination text : String}
  {plugin : Builtin} {former : Former}

theorem Turns.absent (turns : Turns pkg w₀ path none) : w₀ (.path path) = none := by
  generalize isEntry : (none : Option Entry) = entry at turns
  cases turns with
  | same => rfl
  | directory => cases isEntry
  | text => cases isEntry
  | installed => cases isEntry
  | upgraded => cases isEntry

theorem Adopts.congr (adopts : Adopts w₀ w) (same : w' (.path config) = w (.path config))
    (formers : ∀ former : Former, w' (.path former.path) = w (.path former.path)) : Adopts w₀ w' := by
  cases adopts with
  | same isConfig before =>
    exact .same (same.trans isConfig) (fun former => (formers former).trans (before former))
  | moved former isFile unset first adopted gone rest =>
    exact .moved former isFile unset first (same.trans adopted) ((formers former).trans gone)
      (fun other apart => (formers other).trans (rest other apart))
  | default unset none written before =>
    exact .default unset none (same.trans written)
      (fun former => (formers former).trans (before former))

/-- A former configuration file that is still there is the one from the beginning. -/
theorem Adopts.former_found (adopts : Adopts w₀ w) {entry : Entry}
    (found : w (.path former.path) = some entry) :
    w₀ (.path former.path) = some entry := by
  cases adopts with
  | same _ formers => exact (formers former).symm.trans found
  | moved other _ _ _ _ gone rest =>
    by_cases same : former = other
    · rw [same, gone] at found
      cases found
    · exact (rest former same).symm.trans found
  | default _ _ _ formers => exact (formers former).symm.trans found

theorem Adopts.unset (adopts : Adopts w₀ w) (unset : w.isThere config = false) :
    w₀.isThere config = false ∧ ∀ former : Former, w (.path former.path) = w₀ (.path former.path) := by
  cases adopts with
  | same same formers => exact ⟨(isThere_congr same).symm.trans unset, formers⟩
  | moved former isFile _ _ adopted =>
    have there : w.isThere config = true := isThere_of_isFile ((isFile_congr adopted).trans isFile)
    exact absurd unset (by simp [there])
  | default _ _ written =>
    have there : w.isThere config = true := by simp [Workspace.isThere, written]
    exact absurd unset (by simp [there])

theorem Adopts.isThere_move (adopts : Adopts w₀ w) (isFile : w₀.isFile former.path = true)
    {entry : Entry}
    (found : w (.path former.path) = some entry) :
    ((w.put (.path config) (some entry)).put (.path former.path) none).isThere config = true := by
  refine isThere_of_isFile ((isFile_congr ?_).trans isFile)
  rw [put_other (path_apart (former_apart_config former).symm), put_same, adopts.former_found found]

theorem Adopts.isFile (adopts : Adopts w₀ w) (isFile : w.isFile former.path = true) :
    w₀.isFile former.path = true := by
  obtain ⟨entry, found⟩ := Option.ne_none_iff_exists'.mp (present_of_isThere (isThere_of_isFile isFile))
  exact (isFile_congr ((adopts.former_found found).trans found.symm)).trans isFile

/-- A former file that is not there was not, or one has become the configuration file. -/
theorem Adopts.notFile (adopts : Adopts w₀ w) (notFile : w.isFile former.path = false) :
    w.isThere config = true ∨ w₀.isFile former.path = false := by
  cases adopts with
  | same _ formers => exact .inr ((isFile_congr (formers former)).symm.trans notFile)
  | moved other isFile _ _ adopted =>
    exact .inl (isThere_of_isFile ((isFile_congr adopted).trans isFile))
  | default _ none => exact .inr (none former)

theorem Kept.change (kept : Kept pkg w₀ w) (change : Change pkg w₀ w pid w') : Kept pkg w₀ w' := by
  -- one path apart from the configuration files turns, and those stay
  have turned : ∀ {target : String} {entry : Option Entry}, Apart target → Turns pkg w₀ target entry →
      Kept pkg w₀ (w.put (.path target) entry) := by
    intro target entry apart turns
    refine ⟨fun path away => ?_, ?_⟩
    · by_cases same : path = target
      · rw [same, put_same]
        exact turns
      · rw [put_other (path_apart same)]
        exact kept.others path away
    · exact kept.adopts.congr (put_other (path_apart apart.1.symm))
        (fun former => put_other (path_apart (apart.2 former).symm))
  have scratched : ∀ {w : Workspace} {destination : String} {entry : Option Entry}, Kept pkg w₀ w →
      Kept pkg w₀ (w.put (.temporary pid destination) entry) := by
    intro w destination entry kept
    refine ⟨fun path away => ?_, kept.adopts.congr (by simp) (by simp)⟩
    rw [put_temporary]
    exact kept.others path away
  cases change with
  | none => exact kept
  | temporary destination entry => exact scratched kept
  | directory member absent =>
    have apart := apart_directory member
    exact turned apart (.directory member (absent ▸ kept.others _ apart).absent)
  | link owes absent =>
    cases owes with
    | text member =>
      have apart := apart_text member
      exact turned apart (.text member (absent ▸ kept.others _ apart).absent)
    | plugin plugin _ =>
      have apart := apart_plugin plugin
      exact turned apart (.installed plugin (absent ▸ kept.others _ apart).absent)
    | settings ruled =>
      have unset : w.isThere config = false := by simp [Workspace.isThere, absent]
      obtain ⟨unset₀, formers⟩ := kept.adopts.unset unset
      have none := ruled.resolve_left (by simp [unset])
      have absent₀ : w₀ (.path config) = Option.none := by
        cases kept.adopts with
        | same same _ => exact same.symm.trans absent
        | moved former isFile => exact absurd isFile (by simp [none former])
        | default absent₀ => exact absent₀
      refine ⟨fun path away => ?_, .default absent₀ none put_same (fun former => ?_)⟩
      · rw [put_other (path_apart away.1)]
        exact kept.others path away
      · rw [put_other (path_apart (former_apart_config former))]
        exact formers former
  | replace plugin outdated =>
    exact scratched (turned (apart_plugin plugin) (.upgraded plugin outdated))
  | move former isFile unset first found =>
    have found₀ := kept.adopts.former_found found
    refine ⟨fun path away => ?_, ?_⟩
    · rw [put_other (path_apart (away.2 former)), put_other (path_apart away.1)]
      exact kept.others path away
    · refine .moved former isFile unset first ?_ put_same (fun other apart => ?_)
      · rw [put_other (path_apart (former_apart_config former).symm), put_same, found₀]
      · rw [put_other (path_apart (fun same => apart (former_injective same))),
          put_other (path_apart (former_apart_config other))]
        -- had the other one been moved, both would have come first
        cases kept.adopts with
        | same _ formers => exact formers other
        | moved moved isMoved _ before _ gone rest =>
          have differs : moved ≠ former := by
            rintro rfl
            rw [gone] at found
            cases found
          cases moved <;> cases former <;> first | exact absurd rfl differs | skip
          · exact absurd isMoved (by simp [first rfl])
          · exact absurd isFile (by simp [before rfl])
        | default _ none => exact absurd isFile (by simp [none former])

/-- What no operation takes back. -/
structure Grows (pkg : Package) (pid : Nat) (w w' : Workspace) : Prop where
  there : w.isThere config = true → w'.isThere config = true
  present : ∀ path, (∀ former : Former, path ≠ former.path) → w (.path path) ≠ none →
    w' (.path path) ≠ none
  source : ∀ plugin : Builtin, w (.path plugin.path) = some (.file (encoded (pkg.source plugin))) →
    w' (.path plugin.path) = some (.file (encoded (pkg.source plugin)))
  temporary : ∀ other destination, other ≠ pid →
    w' (.temporary other destination) = w (.temporary other destination)

theorem Change.grows (kept : Kept pkg w₀ w) (change : Change pkg w₀ w pid w') : Grows pkg pid w w' := by
  cases change with
  | none => exact ⟨id, fun _ _ => id, fun _ => id, fun _ _ _ => rfl⟩
  | temporary destination entry =>
    refine ⟨fun there =>
      ?_, fun _ _ present => by simpa using present,
        fun _ source => by simpa using source, fun other _ apart => ?_⟩
    · rwa [isThere_congr (w := w) (put_temporary ..)]
    · exact put_other (by simp [apart])
  | directory member absent =>
    have apart := apart_directory member
    refine ⟨fun there => ?_, fun path _ present => ?_, fun plugin source => ?_, fun _ _ _ =>
      put_other (by simp)⟩
    · rwa [isThere_congr (put_other (path_apart apart.1.symm))]
    · rwa [put_other (present_apart present absent)]
    · rwa [put_other (present_apart (by simp [source]) absent)]
  | link owes absent =>
    refine ⟨fun there => ?_, fun path _ present => ?_, fun plugin source => ?_, fun _ _ _ =>
      put_other (by simp)⟩
    · rwa [isThere_congr (put_other (present_apart (present_of_isThere there) absent))]
    · rwa [put_other (present_apart present absent)]
    · rwa [put_other (present_apart (by simp [source]) absent)]
  | replace plugin outdated =>
    have apart := apart_plugin plugin
    refine ⟨fun there => ?_, fun path _ present => ?_, fun other source => ?_, fun other _ apart => ?_⟩
    · rwa [isThere_congr (by rw [put_temporary, put_other (path_apart apart.1.symm)])]
    · rw [put_temporary]
      by_cases same : path = plugin.path
      · rw [same, put_same]
        exact Option.some_ne_none _
      · rwa [put_other (path_apart same)]
    · rw [put_temporary]
      by_cases same : other = plugin
      · rw [same, put_same]
      · rwa [put_other (path_apart (fun path => same (builtin_injective path)))]
    · rw [put_other (by simp [apart]), put_other (by simp)]
  | move former isFile unset first found =>
    refine ⟨fun _ => kept.adopts.isThere_move isFile found, fun path away present =>
      ?_, fun plugin source => ?_, fun _ _ _ => ?_⟩
    · rw [put_other (path_apart (away former))]
      by_cases same : path = config
      · rw [same, put_same]
        exact Option.some_ne_none _
      · rwa [put_other (path_apart same)]
    · rwa [put_other (path_apart ((apart_plugin plugin).2 former)),
        put_other (path_apart (apart_plugin plugin).1)]
    · rw [put_other (by simp), put_other (by simp)]

theorem Ruled.mono (ruled : Ruled w₀ w) (grows : Grows pkg pid w w') : Ruled w₀ w' :=
  ruled.imp_left grows.there

theorem Owes.mono (owes : Owes pkg w₀ w destination text) (grows : Grows pkg pid w w') :
    Owes pkg w₀ w' destination text := by
  cases owes with
  | text member => exact .text member
  | plugin plugin fresh => exact .plugin plugin fresh
  | settings ruled => exact .settings (ruled.mono grows)

theorem Earlier.mono (earlier : Earlier w₀ w former) (grows : Grows pkg pid w w') :
    Earlier w₀ w' former :=
  fun isLegacy => (earlier isLegacy).imp_left grows.there

theorem Publishing.Sound.mono {way : Publishing} (sound : way.Sound pkg w₀ w destination text)
    (grows : Grows pkg pid w w') :
    way.Sound pkg w₀ w' destination text := by
  cases way with
  | link => exact Owes.mono sound grows
  | replace plugin => exact sound

theorem Provided.mono (done : Provided pkg w₀ w path) (away : ∀ former : Former, path ≠ former.path)
    (grows : Grows pkg pid w w') : Provided pkg w₀ w' path := by
  refine ⟨grows.present path away done.present, fun same => (done.adopted same).mono grows,
    fun plugin same outdated => ?_⟩
  have source := done.upgraded plugin same outdated
  rw [same] at source ⊢
  exact grows.source plugin source

theorem former_apart_provided (former : Former) : former.path ∉ provided := by cases former <;> decide

/-- The steps of other processes leave what a process knows. -/
theorem Op.Sound.mono {other : Nat} {op : Op} (sound : op.Sound pkg w₀ w pid)
    (listed : op.provides ∈ provided)
    (grows : Grows pkg other w w') (apart : pid ≠ other) : op.Sound pkg w₀ w' pid := by
  have away : ∀ former : Former, op.provides ≠ former.path := by
    intro former same
    exact former_apart_provided former (same ▸ listed)
  have temporary := fun destination => grows.temporary pid destination apart
  cases op with
  | makeDirectory | move | provideStarter | makeParent | installOrUpgrade | askExisted => exact sound
  | askFormer former => exact Earlier.mono sound grows
  | askBeside former => exact ⟨sound.1, sound.2.mono grows⟩
  | provide destination text => exact Owes.mono sound grows
  | writeTextIfMissing destination text => exact Owes.mono sound grows
  | readExisting plugin text => exact ⟨sound.1, sound.2.1, grows.present _ away sound.2.2⟩
  | create way destination text => exact Publishing.Sound.mono sound grows
  | fill way destination text written => exact Publishing.Sound.mono sound grows
  | link destination text => exact ⟨sound.1.mono grows, (temporary destination).trans sound.2⟩
  | replace plugin text attempt => exact ⟨sound.1, sound.2.1, (temporary _).trans sound.2.2⟩
  | recheck plugin text attempt => exact ⟨sound.1, sound.2.1, (temporary _).trans sound.2.2⟩
  | discard destination raises => exact fun clean => (sound clean).mono away grows

/-! ## The plugins -/

theorem normalized_newlines (text : String) :
    pkg.normalizedTextDigest (String.ofList (newlines text.toList)) =
      pkg.normalizedTextDigest text := by
  have clean : newlines (newlines text.toList) = newlines text.toList :=
    (newlines_readAs _).same (newlines_readAs text.toList).clean
  simp only [Package.normalizedTextDigest, String.toList_ofList, clean]

theorem readText_encoded (found : w (.path path) = some (.file (encoded text))) :
    w.readText path = some (String.ofList (newlines text.toList)) := by
  simp only [Workspace.readText, found, encoded, fromUTF8?_bytes, Option.map_some]

theorem readText_congr (same : w' (.path path) = w (.path path)) :
    w'.readText path = w.readText path := by
  simp only [Workspace.readText, same]

/-- A plugin is as it was or the one of the package. -/
theorem Kept.builtin (kept : Kept pkg w₀ w) (plugin : Builtin) :
    w (.path plugin.path) = w₀ (.path plugin.path) ∨
    w (.path plugin.path) = some (.file (encoded (pkg.source plugin))) := by
  have turns := kept.others plugin.path (apart_plugin plugin)
  generalize isPath : plugin.path = path at turns
  generalize w (.path path) = entry at turns
  cases turns with
  | same => exact .inl rfl
  | directory member =>
    subst isPath
    cases plugin <;> exact absurd member (by decide)
  | text member =>
    subst isPath
    exact absurd member (plugin_apart_texts plugin)
  | installed other =>
    exact .inr (by rw [builtin_injective isPath])
  | upgraded other =>
    exact .inr (by rw [builtin_injective isPath])

theorem Kept.isSymlink (kept : Kept pkg w₀ w) (linked : w₀.isSymlink plugin.path = true) :
    w.isSymlink plugin.path = true := by
  have turns := kept.others plugin.path (apart_plugin plugin)
  have present : w₀ (.path plugin.path) ≠ none := by
    intro absent
    simp [Workspace.isSymlink, absent] at linked
  generalize isEntry : w (.path plugin.path) = entry at turns
  generalize isPath : plugin.path = path at *
  cases turns with
  | same => exact (isSymlink_congr isEntry).trans linked
  | directory _ absent => exact absurd absent present
  | text _ absent => exact absurd absent present
  | installed _ absent => exact absurd absent present
  | upgraded _ outdated => exact absurd linked (by simp [outdated.1])

/-- A plugin that reads otherwise than the package's has not been touched. -/
theorem Kept.untouched (kept : Kept pkg w₀ w) {existing : String}
    (reads : w.readText plugin.path = some existing)
    (differs : pkg.normalizedTextDigest existing ≠ pkg.normalizedTextDigest (pkg.source plugin)) :
    w₀.readText plugin.path = some existing := by
  obtain same | isSource := kept.builtin plugin
  · rw [← readText_congr same]
    exact reads
  · rw [readText_encoded isSource] at reads
    cases reads
    exact absurd (normalized_newlines _) differs

/-- An outdated plugin that reads as the package's has been replaced. -/
theorem Kept.replaced (kept : Kept pkg w₀ w) (outdated : Outdated pkg w₀ plugin) {existing : String}
    (reads : w.readText plugin.path = some existing)
    (same : pkg.normalizedTextDigest existing = pkg.normalizedTextDigest (pkg.source plugin)) :
    w (.path plugin.path) = some (.file (encoded (pkg.source plugin))) := by
  obtain untouched | isSource := kept.builtin plugin
  · obtain ⟨_, before, reads₀, _, differs⟩ := outdated
    rw [readText_congr untouched, reads₀] at reads
    cases reads
    exact absurd same differs
  · exact isSource

theorem Kept.fresh (kept : Kept pkg w₀ w) (gone : w.isThere plugin.path = false) :
    ¬Outdated pkg w₀ plugin := by
  rintro ⟨_, existing, reads, _⟩
  have there : w.isThere plugin.path = true := by
    obtain same | isSource := kept.builtin plugin
    · rw [isThere_congr same]
      unfold Workspace.readText at reads
      unfold Workspace.isThere
      split at reads <;> simp_all
    · simp [Workspace.isThere, isSource]
  simp [there] at gone

/-! ## What one operation provides -/

theorem provided_directory (member : path ∈ directories) (present : w (.path path) ≠ none) :
    Provided pkg w₀ w path := by
  refine ⟨present, fun same => absurd same (apart_directory member).1, fun plugin same _ => ?_⟩
  subst same
  cases plugin <;> exact absurd member (by decide)

theorem provided_text (member : (destination, text) ∈ texts pkg)
    (present : w (.path destination) ≠ none) :
    Provided pkg w₀ w destination := by
  refine ⟨present, fun same => absurd same (apart_text member).1, fun plugin same _ => ?_⟩
  subst same
  exact absurd member (plugin_apart_texts plugin)

theorem Owes.provided (owes : Owes pkg w₀ w destination text) (present : w (.path destination) ≠ none) :
    Provided pkg w₀ w destination := by
  cases owes with
  | text member => exact provided_text member present
  | plugin plugin fresh =>
    refine ⟨present, fun same => absurd same (apart_plugin plugin).1, fun other same outdated => ?_⟩
    rw [← builtin_injective same] at outdated
    exact absurd outdated fresh
  | settings ruled =>
    exact ⟨present, fun _ => ruled, fun plugin same _ => absurd same.symm (apart_plugin plugin).1⟩

theorem provided_plugin (present : w (.path plugin.path) ≠ none)
    (upgraded : Outdated pkg w₀ plugin →
      w (.path plugin.path) = some (.file (encoded (pkg.source plugin)))) :
    Provided pkg w₀ w plugin.path := by
  refine ⟨present, fun same => absurd same (apart_plugin plugin).1, fun other same outdated => ?_⟩
  rw [← builtin_injective same] at outdated ⊢
  exact upgraded outdated

/-- What an operation leaves: the process fails, goes on to provide the same, or has provided it. -/
inductive Performed (pkg : Package) (w₀ w : Workspace) (pid : Nat) (path : String) :
    Outcome → Prop where
  | raise {w' : Workspace} (change : Change pkg w₀ w pid w') : Performed pkg w₀ w pid path (.raise w')
  | goes {w' : Workspace} {op : Op} (change : Change pkg w₀ w pid w') (sound : op.Sound pkg w₀ w' pid)
      (same : op.provides = path) : Performed pkg w₀ w pid path (.next w' (some op))
  | done {w' : Workspace} (change : Change pkg w₀ w pid w') (provided : Provided pkg w₀ w' path) :
      Performed pkg w₀ w pid path (.next w' none)

theorem performed_choice {op : Op} {cond : Bool} (done : cond = true → Provided pkg w₀ w path)
    (goes : cond = false → op.Sound pkg w₀ w pid ∧ op.provides = path) :
    Performed pkg w₀ w pid path (.next w (if cond = true then none else some op)) := by
  cases isCond : cond with
  | true => exact .done .none (done isCond)
  | false => exact .goes .none (goes isCond).1 (goes isCond).2

/-- The choice of the configuration file. -/
theorem performed_former {op : Op} (kept : Kept pkg w₀ w) (sound : op.Sound pkg w₀ w pid) (more : Nat)
    (isChoice : op = .askFormer former ∨ op = .askBeside former ∨ op = .move former) :
    Performed pkg w₀ w pid config (perform pkg w pid more op) := by
  have settings : Ruled w₀ w → Performed pkg w₀ w pid config (.next w (some provideConfig)) :=
    fun ruled => .goes .none (.settings ruled) rfl
  obtain rfl | rfl | rfl := isChoice
  · simp only [perform]
    cases isFile : w.isFile former.path with
    | true => exact .goes .none ⟨kept.adopts.isFile isFile, sound⟩ rfl
    | false =>
      have notFile := kept.adopts.notFile isFile
      cases former with
      | previous => exact .goes .none (fun _ => notFile) rfl
      | legacy =>
        refine settings ?_
        obtain there | none := sound rfl
        · exact .inl there
        obtain there | noneLegacy := notFile
        · exact .inl there
        refine .inr (fun former => ?_)
        cases former with
        | previous => exact none
        | legacy => exact noneLegacy
  · obtain ⟨isFile, earlier⟩ := sound
    simp only [perform]
    cases there : w.isThere config with
    | true =>
      cases former with
      | previous => exact .goes .none (fun _ => .inl there) rfl
      | legacy => exact settings (.inl there)
    | false =>
      exact .goes .none ⟨isFile, (kept.adopts.unset there).1, fun isLegacy =>
        (earlier isLegacy).resolve_left (by simp [there])⟩ rfl
  · obtain ⟨isFile, unset, first⟩ := sound
    simp only [perform]
    cases found : w (.path former.path) with
    | none =>
      have notFile : w.isFile former.path = false := by simp [Workspace.isFile, found]
      exact settings (.inl ((kept.adopts.notFile notFile).resolve_right (by simp [isFile])))
    | some entry =>
      simp only
      split
      · exact .raise .none
      · exact .goes (.move former isFile unset first found)
          (.settings (.inl (kept.adopts.isThere_move isFile found))) rfl

/-- A plugin that is installed, read or upgraded. -/
theorem performed_plugin {op : Op} (kept : Kept pkg w₀ w) (sound : op.Sound pkg w₀ w pid) (more : Nat)
    (isPlugin : op = .installOrUpgrade plugin text ∨ op = .askExisted plugin text ∨
      op = .readExisting plugin text) :
    Performed pkg w₀ w pid plugin.path (perform pkg w pid more op) := by
  obtain rfl | rfl | rfl := isPlugin
  · cases show text = pkg.source plugin from sound
    refine performed_choice (fun linked => ?_) (fun unlinked => ⟨⟨rfl, ?_⟩, rfl⟩)
    · refine provided_plugin (isThere_or_isSymlink.mp (by simp [linked])) (fun outdated => ?_)
      obtain same | isSource := kept.builtin plugin
      · rw [isSymlink_congr same, outdated.1] at linked
        cases linked
      · exact isSource
    · exact Bool.eq_false_iff.mpr (fun linked => by simp [kept.isSymlink linked] at unlinked)
  · obtain ⟨rfl, unlinked⟩ := sound
    simp only [perform]
    cases there : w.isThere plugin.path with
    | true => exact .goes .none ⟨rfl, unlinked, present_of_isThere there⟩ rfl
    | false => exact .goes .none (.plugin plugin (kept.fresh there)) rfl
  · obtain ⟨rfl, unlinked, present⟩ := sound
    simp only [perform]
    cases reads : w.readText plugin.path with
    | none => exact .raise .none
    | some existing =>
      simp only
      split
      · rename_i same
        exact .done .none (provided_plugin present (fun outdated => kept.replaced outdated reads same))
      rename_i differs
      have reads₀ := kept.untouched reads differs
      split
      · rename_i unknown
        refine .done .none (provided_plugin present ?_)
        rintro ⟨_, before, isBefore, known, _⟩
        rw [isBefore] at reads₀
        cases reads₀
        exact absurd known unknown
      · rename_i known
        exact .goes .none ⟨rfl, rfl, unlinked, existing, reads₀, by simpa using known, differs⟩ rfl

/-- A file that is written beside its destination and brought there. -/
theorem performed_publishing {op : Op} {way : Publishing} (kept : Kept pkg w₀ w)
    (sound : op.Sound pkg w₀ w pid)
    (more written : Nat)
    (isWriting : op = .create way destination text ∨ op = .fill way destination text written) :
    Performed pkg w₀ w pid destination (perform pkg w pid more op) := by
  have change (entry : Option Entry) : Change pkg w₀ w pid
    (w.put (.temporary pid destination) entry) := .temporary destination entry
  obtain rfl | rfl := isWriting
  · exact .goes (change _) (Publishing.Sound.mono sound ((change _).grows kept)) rfl
  · have grown (entry : Option Entry) := Publishing.Sound.mono sound ((change entry).grows kept)
    simp only [perform]
    split
    · exact .goes (change _) (grown _) rfl
    · cases way with
      | link => exact .goes (change _) ⟨grown _, put_same⟩ rfl
      | replace plugin =>
        obtain ⟨rfl, rfl, outdated⟩ := grown (some (.file (encoded text)))
        exact .goes (change _) ⟨rfl, outdated, put_same⟩ rfl

theorem performed_recheck {attempt : Nat} (kept : Kept pkg w₀ w) (more : Nat)
    (sound : (Op.recheck plugin text attempt).Sound pkg w₀ w pid) :
    Performed pkg w₀ w pid plugin.path (perform pkg w pid more (.recheck plugin text attempt)) := by
  obtain ⟨rfl, outdated, temporary⟩ := sound
  have onward : Performed pkg w₀ w pid plugin.path
    (.next w (some (if attempt = 9 then .discard plugin.path true
      else .replace plugin (pkg.source plugin) (attempt + 1)))) := by
    split
    · exact .goes .none (fun clean => by cases clean) rfl
    · exact .goes .none ⟨rfl, outdated, temporary⟩ rfl
  simp only [perform]
  split
  · rename_i there
    cases reads : w.readText plugin.path with
    | none => exact .raise .none
    | some existing =>
      simp only
      split
      · rename_i same
        exact .goes .none (fun _ =>
          provided_plugin (present_of_isThere there) (fun _ => kept.replaced outdated reads same)) rfl
      · exact onward
  · exact onward

theorem performed {op : Op} (kept : Kept pkg w₀ w) (sound : op.Sound pkg w₀ w pid)
    (listed : op.provides ∈ provided)
    (more : Nat) : Performed pkg w₀ w pid op.provides (perform pkg w pid more op) := by
  cases op with
  | makeDirectory path =>
    have present {entry : Entry} (found : w (.path path) = some entry) : Provided pkg w₀ w path :=
      provided_directory sound (by simp [found])
    simp only [perform]
    split
    · rename_i absent
      exact .done (.directory sound absent) (provided_directory sound (by simp [Op.provides]))
    · rename_i found
      exact .done .none (present found)
    · rename_i found
      exact .done .none (present found)
    · exact .raise .none
  | askFormer former => exact performed_former kept sound more (.inl rfl)
  | askBeside former => exact performed_former kept sound more (.inr (.inl rfl))
  | move former => exact performed_former kept sound more (.inr (.inr rfl))
  | provide destination text =>
    exact performed_choice (fun there => Owes.provided sound (present_of_isThere there))
      (fun _ => ⟨sound, rfl⟩)
  | provideStarter destination parent text =>
    obtain ⟨member, isDirectory⟩ := sound
    simp only [perform]
    split
    · rename_i there
      exact .done .none (provided_text member (isThere_or_isSymlink.mp there))
    · cases parent with
      | some parent => exact .goes .none ⟨member, isDirectory parent rfl⟩ rfl
      | none => exact .goes .none (.text member) rfl
  | makeParent destination parent text =>
    obtain ⟨member, isDirectory⟩ := sound
    simp only [perform]
    split
    · rename_i absent
      exact .goes (.directory isDirectory absent) (.text member) rfl
    · exact .goes .none (.text member) rfl
    · exact .goes .none (.text member) rfl
    · exact .raise .none
  | writeTextIfMissing destination text =>
    exact performed_choice (fun there => Owes.provided sound (isThere_or_isSymlink.mp there))
      (fun _ => ⟨sound, rfl⟩)
  | installOrUpgrade plugin text => exact performed_plugin kept sound more (.inl rfl)
  | askExisted plugin text => exact performed_plugin kept sound more (.inr (.inl rfl))
  | readExisting plugin text => exact performed_plugin kept sound more (.inr (.inr rfl))
  | create way destination text => exact performed_publishing kept sound more 0 (.inl rfl)
  | fill way destination text written => exact performed_publishing kept sound more written (.inr rfl)
  | link destination text =>
    obtain ⟨owes, temporary⟩ := sound
    simp only [perform, temporary]
    split
    · rename_i isNone
      cases isNone
    · rename_i isSome absent
      cases isSome
      have change : Change pkg w₀ w pid _ := .link owes absent
      exact .goes change (fun _ => (owes.mono (change.grows kept)).provided (by simp)) rfl
    · rename_i found
      exact .goes .none (fun _ => owes.provided (by simp [found])) rfl
  | replace plugin text attempt =>
    obtain ⟨rfl, outdated, temporary⟩ := sound
    simp only [perform, temporary]
    split
    · exact .raise .none
    · exact .done (.replace plugin outdated) (provided_plugin (by simp) (by simp))
  | recheck plugin text attempt => exact performed_recheck kept more sound
  | discard destination raises =>
    have change : Change pkg w₀ w pid _ := .temporary destination none
    cases raises with
    | true => exact .raise change
    | false =>
      have away : ∀ former : Former, destination ≠ former.path := by
        rintro former rfl
        exact former_apart_provided former listed
      exact .done change ((sound rfl).mono away (change.grows kept))

theorem refused {op : Op} (sound : op.Sound pkg w₀ w pid) :
    Performed pkg w₀ w pid op.provides (refuse w op) := by
  cases op with
  | replace plugin text attempt => exact .goes .none sound rfl
  | link destination text => exact .goes .none (fun clean => by cases clean) rfl
  | _ => exact .raise .none

end Changes

/-! ## Any number of processes -/

section Runs
variable {pkg : Package} {w₀ w w' : Workspace} {s : State} {pid : Nat} {ops : List Op}

/-- What a process begins with needs no knowledge of the root. -/
theorem sound_initializeConfigRoot {op : Op} (member : op ∈ initializeConfigRoot pkg) :
    op.Sound pkg w₀ w pid := by
  simp only [initializeConfigRoot, List.mem_append, List.mem_map, List.mem_singleton] at member
  obtain (((⟨path, listed, rfl⟩ | rfl) | ⟨starter, listed, rfl⟩) | ⟨plugin, _, rfl⟩) | rfl := member
  · exact listed
  · exact fun isLegacy => by cases isLegacy
  · refine ⟨List.mem_append_left _ (List.mem_map_of_mem listed), fun path isParent => ?_⟩
    have decided : ∀ starter ∈ starters, ∀ path ∈ starter.2, path ∈ directories := by decide
    exact decided starter listed path (Option.mem_def.mpr isParent)
  · exact rfl
  · exact .text (List.mem_append_right _ (List.mem_singleton_self _))

/-- A process with what it has left to do. -/
structure Underway (pkg : Package) (w₀ w : Workspace) (pid : Nat) (ops : List Op) : Prop where
  head : ∀ op ∈ ops.head?, op.Sound pkg w₀ w pid
  tail : ∀ op ∈ ops.tail, op ∈ initializeConfigRoot pkg
  listed : ∀ op ∈ ops, op.provides ∈ provided
  covers : ∀ path ∈ provided, Provided pkg w₀ w path ∨ ∃ op ∈ ops, op.provides = path

structure Valid (pkg : Package) (w₀ : Workspace) (s : State) : Prop where
  kept : Kept pkg w₀ s.workspace
  underway : ∀ pid ops, s.process pid = some (.running ops) → Underway pkg w₀ s.workspace pid ops

theorem away_of_provided {path : String} (listed : path ∈ provided) (former : Former) :
    path ≠ former.path := by
  rintro rfl
  exact former_apart_provided former listed

theorem Underway.mono {other : Nat} (underway : Underway pkg w₀ w pid ops)
    (grows : Grows pkg other w w') (apart : pid ≠ other) :
    Underway pkg w₀ w' pid ops := by
  refine ⟨fun op isHead => ?_, underway.tail, underway.listed, fun path listed => ?_⟩
  · exact (underway.head op isHead).mono (underway.listed op (List.mem_of_mem_head? isHead)) grows apart
  · exact (underway.covers path listed).imp_left (fun done => done.mono (away_of_provided listed) grows)

theorem underway_begin : Underway pkg w₀ w pid (initializeConfigRoot pkg) := by
  refine ⟨fun op isHead => sound_initializeConfigRoot (List.mem_of_mem_head? isHead), fun op =>
    List.mem_of_mem_tail,
    fun op member => ?_, fun path listed => .inr ?_⟩
  · rw [← provides_initializeConfigRoot pkg]
    exact List.mem_map_of_mem member
  · rw [← provides_initializeConfigRoot pkg] at listed
    exact List.mem_map.mp listed

theorem underway_goes {op next : Op} {rest : List Op}
    (underway : Underway pkg w₀ w pid (op :: rest)) (grows : Grows pkg pid w w')
    (sound : next.Sound pkg w₀ w' pid) (same : next.provides = op.provides) :
    Underway pkg w₀ w' pid (next :: rest) := by
  refine ⟨by simpa using sound, underway.tail, ?_, fun path listed => ?_⟩
  · intro op' member
    obtain rfl | later := List.mem_cons.mp member
    · rw [same]
      exact underway.listed op List.mem_cons_self
    · exact underway.listed op' (List.mem_cons_of_mem _ later)
  · refine (underway.covers path listed).imp (fun done => done.mono (away_of_provided listed) grows) ?_
    rintro ⟨op', member, rfl⟩
    obtain rfl | later := List.mem_cons.mp member
    · exact ⟨next, List.mem_cons_self, same⟩
    · exact ⟨op', List.mem_cons_of_mem _ later, rfl⟩

theorem underway_done {op : Op} {rest : List Op} (underway : Underway pkg w₀ w pid (op :: rest))
    (grows : Grows pkg pid w w')
    (done : Provided pkg w₀ w' op.provides) : Underway pkg w₀ w' pid rest := by
  refine ⟨fun next isHead =>
    sound_initializeConfigRoot (underway.tail next (List.mem_of_mem_head? isHead)),
    fun next member => underway.tail next (List.mem_of_mem_tail member),
    fun next member => underway.listed next (List.mem_cons_of_mem _ member), fun path listed => ?_⟩
  obtain before | ⟨op', member, rfl⟩ := underway.covers path listed
  · exact .inl (before.mono (away_of_provided listed) grows)
  · obtain rfl | later := List.mem_cons.mp member
    · exact .inl done
    · exact .inr ⟨op', later, rfl⟩

theorem Valid.resume {op : Op} {rest : List Op} {outcome : Outcome} (valid : Valid pkg w₀ s)
    (running : s.process pid = some (.running (op :: rest)))
    (performed : Performed pkg w₀ s.workspace pid op.provides outcome) :
    Valid pkg w₀ (s.resume pid rest outcome) := by
  have underway := valid.underway pid _ running
  have others {w : Workspace} {process : Process} (change : Change pkg w₀ s.workspace pid w)
      (own : ∀ ops, process = .running ops → Underway pkg w₀ w pid ops) :
      Valid pkg w₀ ⟨w, Function.update s.process pid (some process)⟩ := by
    refine ⟨valid.kept.change change, fun other ops isProcess => ?_⟩
    by_cases same : other = pid
    · subst same
      exact own ops (by simpa using isProcess)
    · simp only [Function.update_of_ne same] at isProcess
      exact (valid.underway other ops isProcess).mono (change.grows valid.kept) same
  cases performed with
  | raise change => exact others change (fun ops stopped => by cases stopped)
  | goes change sound same =>
    refine others change (fun ops isOps => ?_)
    cases isOps
    exact underway_goes underway (change.grows valid.kept) sound same
  | done change done =>
    refine others change (fun ops isOps => ?_)
    cases isOps
    exact underway_done underway (change.grows valid.kept) done

theorem Valid.act (valid : Valid pkg w₀ s) (label : Label) : Valid pkg w₀ (s.act pkg label) := by
  have replaced {process : Process} (pid : Nat) (own : ∀ ops, process = .running ops →
    Underway pkg w₀ s.workspace pid ops) :
      Valid pkg w₀ { s with process := Function.update s.process pid (some process) } := by
    refine ⟨valid.kept, fun other ops isProcess => ?_⟩
    by_cases same : other = pid
    · subst same
      exact own ops (by simpa using isProcess)
    · exact valid.underway other ops (by simpa [Function.update_of_ne same] using isProcess)
  cases label with
  | begin pid =>
    simp only [State.act]
    split
    · refine replaced pid (fun ops isOps => ?_)
      cases isOps
      exact underway_begin
    · exact valid
  | step pid more =>
    simp only [State.act]
    split
    · rename_i op rest running
      have underway := valid.underway pid _ running
      exact valid.resume running
        (performed valid.kept (underway.head op rfl) (underway.listed op List.mem_cons_self) more)
    · exact valid
  | denied pid =>
    simp only [State.act]
    split
    · rename_i op rest running
      exact valid.resume running (refused ((valid.underway pid _ running).head op rfl))
    · exact valid
  | kill pid =>
    simp only [State.act]
    split
    · exact replaced pid (fun ops stopped => by cases stopped)
    · exact valid

theorem valid_run (pkg : Package) (w : Workspace) (labels : List Label) :
    Valid pkg w (run pkg w labels) := by
  have from_valid : ∀ s, Valid pkg w s → Valid pkg w (labels.foldl (State.act pkg) s) := by
    induction labels with
    | nil => exact fun _ valid => valid
    | cons label rest ih => exact fun s valid => ih _ (valid.act label)
  refine from_valid _ ⟨⟨fun path _ => .same path, .same rfl (fun _ => rfl)⟩, ?_⟩
  intro pid ops isProcess
  cases isProcess

/-- Whatever processes initialize a root, in whatever order and wherever they stop: what is under a
path stays, but for a former configuration file that becomes the configuration file and a plugin
that an upgrade replaces; what is new is a file of the package as a whole. And one that comes to its
end leaves nothing missing. -/
theorem config_root_kept (pkg : Package) (w : Workspace) (labels : List Label) :
    Kept pkg w (run pkg w labels).workspace ∧
      ∀ pid, (run pkg w labels).process pid = some (.running []) →
        ∀ path ∈ provided, Provided pkg w (run pkg w labels).workspace path := by
  have valid := valid_run pkg w labels
  refine ⟨valid.kept, fun pid finished path listed => ?_⟩
  refine ((valid.underway pid [] finished).covers path listed).resolve_right ?_
  rintro ⟨op, member, _⟩
  cases member

/-- Two processes side by side where there is only the configuration file of a former version. -/
theorem config_root_kept_race :
    let w : Workspace :=
  fun place => if place = .path "localflow.yaml" then some (.file [112]) else none
    let labels := [.begin 0, .begin 1] ++ (List.replicate 70 [Label.step 0 4096, .step 1 4096]).flatten
    ∀ path ∈ provided, Provided ⟨fun _ => "", id, id⟩ w
      (run ⟨fun _ => "", id, id⟩ w labels).workspace path :=
  (config_root_kept ⟨fun _ => "", id, id⟩ _ _).2 0 (by decide +kernel)

end Runs

end LocalFlow.ConfigRoot
