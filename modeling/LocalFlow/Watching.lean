import LocalFlow.ConfigFiles
import LocalFlow.Library.Lookup
import LocalFlow.Library.Run
import Mathlib.Data.List.Dedup

/-! The watcher of the configuration and plugin directories: one pass of its loop, the life of its
task inside the application, and the shutdown that awaits it. The disk may change between any two
accesses of a pass. -/
namespace LocalFlow
open Paths Transition

/-- What one access sees. -/
structure Snapshot where
  config : DirectoryListing
  plugins : DirectoryListing
  disk : Volume

/-- The accesses of a pass. A walk over include directives reads each file once, so it counts as one. -/
inductive Access where
  | scan | plugins
  | read (relative : String)
  | affected (relative : String)
  | dependencies (relative candidate : String)
  | reread (relative : String)
  | validate (relative : String)

abbrev World := Access → Snapshot

structure ConfigDiagnosis where
  kind : String
  valid : Bool
  errors : List String

/-- The application around the watcher: where it lives, how deep its interpreter nests calls, the
names of its temporary files, and the code it calls, which is the loader, the diagnosis with its
plugin hooks, SHA-256, and the import of the plugins with their generation and diagnostics. -/
structure WatchHost (α : Type) where
  base : Path
  limit : Nat
  scratch : String → Option String
  load : Volume → Path → Except Raised α
  diagnose : α → Except Raised ConfigDiagnosis
  digest : List UInt8 → String
  loadPlugins : DirectoryListing → Except Raised (Nat × List (String × String))

inductive WatchEvent where
  | deleted (path : String) (affected : List String)
  | changed (path version : String) (affected : List String)
  | invalid (path version : String) (affected : List String) (error : Raised)
  | plugins (generation : Nat) (diagnostics : List (String × String)) (paths : List String)

/-- What the last pass has read. The watcher itself keeps the digests. -/
structure Watcher where
  config : List (String × String)
  plugins : List (String × List UInt8)

section Pass
variable {α : Type} (host : WatchHost α) (world : World)

def WatchHost.version (text : String) : String := host.digest text.toUTF8.data.toList

/-- `except (OSError, ValueError)`. -/
def Raised.isSkipped : Raised → Bool
  | .os | .decode | .value _ => true
  | .loop | .recursion | .exit | .other _ => false

/-- The loop of `_scan_config_versions`. -/
def readable : List String → Except Raised (List (String × String))
  | [] => .ok []
  | relative :: rest =>
    match ConfigRepository.read host.base (world (.read relative)).disk relative with
    | .ok text => (readable rest).map ((relative, text) :: ·)
    | .error e => if e.isSkipped then readable rest else .error e

/-- `_scan_config_versions`. -/
def scanConfig : Except Raised (List (String × String)) := do
  let listed ← ConfigRepository.list host.limit (world .scan).config
  readable host world listed.dedup

def skipsPlugin (name : String) : Bool :=
  name = "__pycache__" || ".localflow-".toList.isPrefixOf name.toList

def wantsPlugin (name : String) : Bool := lowered (suffix [name]) ∈ [".py", ".md"]

/-- `_scan_plugin_versions`. -/
def scanPlugins : Except Raised (List (String × List UInt8)) :=
  ((world .plugins).plugins.files skipsPlugin wantsPlugin host.limit).map (fun files =>
    files.filterMap (fun file => file.2.map (fun bytes => (posix file.1, bytes))))

/-- The loop of `affected_by`. -/
def affectedAmong (relative : String) (changed : Path) : List String → Except Raised (List String)
  | [] => .ok []
  | candidate :: rest =>
    if candidate = relative then affectedAmong relative changed rest
    else do
      let found ← ConfigRepository.dependencies host.base
        (world (.dependencies relative candidate)).disk host.limit candidate
      let later ← affectedAmong relative changed rest
      .ok (if changed ∈ found then candidate :: later else later)

/-- `affected_by`. -/
def affectedBy (relative : String) : Except Raised (List String) := do
  let changed ← ConfigRepository.resolve host.base (world (.affected relative)).disk relative
  let listed ← ConfigRepository.list host.limit (world (.affected relative)).config
  let found ← affectedAmong host world relative changed listed
  .ok ((relative :: found).insertionSort (· ≤ ·))

/-- `validate`. -/
def validate (disk : Volume) (relative content : String) : Except Raised Unit := do
  let parsed ← (ConfigRepository.parse host.load host.limit
    (host.scratch relative) host.base disk relative (some content)).result
  let diagnosis ← host.diagnose parsed
  if diagnosis.kind ≠ "generic" ∧ diagnosis.valid = false then
    .error (.value ("; ".intercalate diagnosis.errors)) else .ok ()

/-- The body of the `try` for a configuration. -/
def judged (relative : String) : Except Raised Unit := do
  let content ← ConfigRepository.read host.base (world (.reread relative)).disk relative
  validate host (world (.validate relative)).disk relative content

def deletedReport (relative : String) : Except Raised WatchEvent :=
  (affectedBy host world relative).map (.deleted relative)

def changedReport (entry : String × String) : Except Raised WatchEvent := do
  let affected ← affectedBy host world entry.1
  match judged host world entry.1 with
  | .ok () => .ok (.changed entry.1 (host.version entry.2) affected)
  | .error .exit => .error .exit
  | .error e => .ok (.invalid entry.1 (host.version entry.2) affected e)

/-- A loop that appends an event for each item until one raises. -/
def emit {β : Type} (report : β → Except Raised WatchEvent) : List β → List WatchEvent × Option Raised
  | [] => ([], none)
  | item :: rest =>
    match report item with
    | .error e => ([], some e)
    | .ok event => (event :: (emit report rest).1, (emit report rest).2)

namespace Watcher
variable (watcher : Watcher)

/-- The keys that are gone. Their order is not specified. -/
def removed (current : List (String × String)) : List String :=
  (watcher.config.map Prod.fst).filter (fun relative => relative ∉ current.map Prod.fst)

/-- The entries of another version. -/
def updated (current : List (String × String)) : List (String × String) :=
  current.filter (fun entry =>
    (watcher.config.lookup entry.1).map host.version ≠ some (host.version entry.2))

/-- `changed_paths`, which is empty where the two dictionaries are equal. -/
def changedPaths (current : List (String × List UInt8)) : List String :=
  (((current ++ watcher.plugins).map Prod.fst).dedup.filter (fun path =>
    (current.lookup path).map host.digest ≠
      (watcher.plugins.lookup path).map host.digest)).insertionSort (· ≤ ·)

/-- One pass of `run`: the events it appends and what it leaves, or what it raises. -/
def pass : List WatchEvent × Except Raised Watcher :=
  match scanConfig host world with
  | .error e => ([], .error e)
  | .ok current =>
    match emit (deletedReport host world) (watcher.removed current) with
    | (deleted, some e) => (deleted, .error e)
    | (deleted, none) =>
      match emit (changedReport host world) (watcher.updated host current) with
      | (changed, some e) => (deleted ++ changed, .error e)
      | (changed, none) =>
        match scanPlugins host world with
        | .error e => (deleted ++ changed, .error e)
        | .ok plugins =>
          if watcher.changedPaths host plugins = [] then
            (deleted ++ changed, .ok ⟨current, watcher.plugins⟩)
          else
            match host.loadPlugins (world .plugins).plugins with
            | .error e => (deleted ++ changed, .error e)
            | .ok (generation, diagnostics) =>
              (deleted ++ changed ++
                [.plugins generation diagnostics (watcher.changedPaths host plugins)],
                .ok ⟨current, plugins⟩)

/-- `__init__`. -/
def create : Except Raised Watcher := do
  let config ← scanConfig host world
  let plugins ← scanPlugins host world
  .ok ⟨config, plugins⟩

end Watcher
end Pass

/-! ## The application -/

/-- The task of `run`. -/
inductive WatcherTask where
  | running (watcher : Watcher)
  | finished
  | raised (error : Raised)

/-- `lifespan`: the task, the events it has appended, and whether the shutdown has been asked for
and has reached the cleanup of the tasks. -/
structure Lifespan where
  task : WatcherTask
  events : List WatchEvent := []
  down : Bool := false
  cleaned : Bool := false

inductive LifespanAct where
  | pass (world : World)
  | shutdown

/-- One step: a pass of the loop, or the shutdown, which stops the loop, awaits the task and then
cleans up. What the task has raised it raises where it is awaited. -/
def Lifespan.step {α : Type} (host : WatchHost α) (s : Lifespan) : LifespanAct → Option Lifespan
  | .pass world =>
    if s.down then none
    else
      match s.task with
      | .running watcher =>
        let (events, outcome) := watcher.pass host world
        some { s with
          task := match outcome with
            | .ok watcher => .running watcher
            | .error e => .raised e
          events := s.events ++ events }
      | _ => none
  | .shutdown =>
    if s.down then none
    else
      match s.task with
      | .raised _ => some { s with down := true }
      | _ => some { s with
          task := .finished
          down := true
          cleaned := true }

def Lifespan.begin (watcher : Watcher) : Lifespan := { task := .running watcher }

/-! ## What makes a pass raise -/

section Survival
variable {α : Type} (host : WatchHost α) (world : World)

/-- The links of a configuration lead back to themselves. -/
def ConfigRepository.Loops (base : Path) (disk : Volume) (relative : String) : Prop :=
  ∃ logical, ConfigRepository.path base relative = .ok logical ∧ embedsNull relative = false ∧
    disk.loops logical = true

/-- The configurations that a change of a path affects can be found: neither the path nor another
configuration has become a loop of links, the tree is not too deep, and the include graph of every
other configuration can be walked. -/
structure Affectable (relative : String) : Prop where
  ends : ¬ ConfigRepository.Loops host.base (world (.affected relative)).disk relative
  shallow : (world (.affected relative)).config.Shallow (fun _ => false) host.limit
  walks : ∀ listed, ConfigRepository.list host.limit (world (.affected relative)).config = .ok listed →
    ∀ candidate ∈ listed, candidate ≠ relative →
      ¬ ConfigRepository.Loops host.base (world (.dependencies relative candidate)).disk candidate ∧
      ∀ path, ConfigRepository.resolve host.base
        (world (.dependencies relative candidate)).disk candidate = .ok path →
        Walkable (world (.dependencies relative candidate)).disk host.limit path

/-- The directories are such that a pass does not raise: no tree is too deep, no listed
configuration has become a loop of links when it is read, whatever a changed or deleted
configuration affects can be found, no validation of a changed one exits, and the plugins can be
imported if one has changed. -/
structure Survivable (watcher : Watcher) : Prop where
  shallow : (world .scan).config.Shallow (fun _ => false) host.limit
  ends : ∀ listed, ConfigRepository.list host.limit (world .scan).config = .ok listed →
    ∀ relative ∈ listed,
    ¬ ConfigRepository.Loops host.base (world (.read relative)).disk relative
  affected : ∀ current, scanConfig host world = .ok current → ∀ relative,
    relative ∈ watcher.removed current ∨ relative ∈ (watcher.updated host current).map Prod.fst →
      Affectable host world relative
  judges : ∀ current, scanConfig host world = .ok current →
    ∀ relative ∈ (watcher.updated host current).map Prod.fst,
    judged host world relative ≠ .error .exit
  shallowPlugins : (world .plugins).plugins.Shallow skipsPlugin host.limit
  loads : ∀ plugins, scanPlugins host world = .ok plugins → watcher.changedPaths host plugins ≠ [] →
    ∃ loaded, host.loadPlugins (world .plugins).plugins = .ok loaded

/-- A text that the repository lists. -/
def IsListed (relative : String) : Prop :=
  ∃ front last, relative = posix (front ++ [last]) ∧ isSupported [last.text] = true

/-- What a watcher has read is keyed by listed texts, each of them once. -/
structure KeyedTexts (config : List (String × String)) : Prop where
  listed : ∀ entry ∈ config, IsListed entry.1
  unique : (config.map Prod.fst).Nodup

variable {host world} {relative : String} {current : List (String × String)} {watcher : Watcher}

theorem except_map {β γ : Type} {first : Except Raised β} {f : β → γ} {result : γ}
    (done : first.map f = .ok result) :
    ∃ middle, first = .ok middle ∧ f middle = result := by
  cases first with
  | error e => cases done
  | ok middle => exact ⟨middle, rfl, Except.ok.inj done⟩

/-- What is listed can be resolved unless it has become a loop. -/
theorem resolve_listed (base : Path) (disk : Volume) (listed : IsListed relative) :
    (∃ path, ConfigRepository.resolve base disk relative = .ok path) ↔
      ¬ ConfigRepository.Loops base disk relative := by
  obtain ⟨front, last, rfl, supported⟩ := listed
  obtain ⟨logical, isPath, resolved, _⟩ := resolve_posix base disk front last supported
  constructor
  · rintro ⟨path, ok⟩ ⟨other, isOther, _, loops⟩
    rw [isPath] at isOther
    cases isOther
    rw [resolved] at ok
    rw [(volume_resolve_iff.mp ok).1] at loops
    cases loops
  · intro ends
    refine ⟨disk.realpath logical,
      resolved.trans (volume_resolve_iff.mpr ⟨Bool.eq_false_iff.mpr (fun loops => ?_), rfl⟩)⟩
    have failed : ConfigRepository.resolve base disk (posix (front ++ [last])) = .error .loop := by
      rw [resolved]
      exact if_pos loops
    refine ends ⟨logical, isPath, ?_, loops⟩
    unfold ConfigRepository.resolve at failed
    rw [isPath] at failed
    dsimp only at failed
    split at failed
    · cases failed
    · rename_i whole
      exact Bool.eq_false_iff.mpr whole

/-- A read raises what the scan does not skip exactly when the links of the file lead back to
themselves. -/
theorem read_unskipped {base : Path} {disk : Volume} :
    (∃ e, ConfigRepository.read base disk relative = .error e ∧ e.isSkipped = false) ↔
      ConfigRepository.Loops base disk relative := by
  unfold ConfigRepository.read ConfigRepository.resolve
  cases isPath : ConfigRepository.path base relative with
  | error e =>
    refine iff_of_false ?_ (fun ⟨_, same, _⟩ => by rw [isPath] at same; cases same)
    rintro ⟨_, same, unskipped⟩
    cases same
    unfold ConfigRepository.path at isPath
    dsimp only at isPath
    split at isPath
    · cases isPath
      cases unskipped
    · split at isPath <;> cases isPath
      cases unskipped
  | ok logical =>
    dsimp only
    cases null : embedsNull relative with
    | true =>
      refine iff_of_false ?_ (fun ⟨_, _, whole, _⟩ => by rw [null] at whole; cases whole)
      rintro ⟨_, same, unskipped⟩
      cases same
      cases unskipped
    | false =>
      rw [if_neg Bool.false_ne_true]
      unfold Volume.resolve
      cases loops : disk.loops logical with
      | true => exact iff_of_true ⟨_, rfl, rfl⟩ ⟨logical, isPath, null, loops⟩
      | false =>
        refine iff_of_false ?_ ?_
        · rintro ⟨e, failed, unskipped⟩
          obtain rfl | rfl := readText_error failed <;> cases unskipped
        · rintro ⟨_, same, _, never⟩
          rw [isPath] at same
          cases same
          rw [loops] at never
          cases never

/-- The texts of the listed configurations that can be read. -/
def textsOf (host : WatchHost α) (world : World) (listed : List String) : List (String × String) :=
  listed.filterMap (fun relative =>
    (ConfigRepository.read host.base (world (.read relative)).disk relative).toOption.map
      (fun text => (relative, text)))

theorem readable_eq {listed : List String} (read : readable host world listed = .ok current) :
    current = textsOf host world listed := by
  induction listed generalizing current with
  | nil => exact (Except.ok.inj read).symm
  | cons relative rest ih =>
    unfold readable at read
    unfold textsOf
    rw [List.filterMap_cons]
    split at read
    · rename_i text isText
      obtain ⟨later, isLater, rfl⟩ := except_map read
      rw [isText, ih isLater]
      rfl
    · rename_i e failed
      split at read
      · rw [failed, ih read]
        rfl
      · cases read

theorem readable_iff {listed : List String} : (∃ current, readable host world listed = .ok current) ↔
    ∀ relative ∈ listed, ¬ ConfigRepository.Loops host.base (world (.read relative)).disk relative := by
  induction listed with
  | nil => exact iff_of_true ⟨[], rfl⟩ (fun _ never => nomatch never)
  | cons relative rest ih =>
    rw [List.forall_mem_cons, ← read_unskipped, readable, ← ih]
    split
    · rename_i text isText
      constructor
      · rintro ⟨_, done⟩
        obtain ⟨later, isLater, _⟩ := except_map done
        refine ⟨?_, later, isLater⟩
        rintro ⟨_, failed, _⟩
        rw [isText] at failed
        cases failed
      · rintro ⟨_, later, isLater⟩
        rw [isLater]
        exact ⟨_, rfl⟩
    · rename_i e failed
      split
      · rename_i skipped
        refine ⟨fun done => ⟨?_, done⟩, And.right⟩
        rintro ⟨_, same, unskipped⟩
        rw [failed] at same
        cases same
        rw [skipped] at unskipped
        cases unskipped
      · rename_i unskipped
        refine iff_of_false (fun ⟨_, never⟩ => by cases never) (fun fine => ?_)
        exact fine.1 ⟨e, failed, Bool.eq_false_iff.mpr unskipped⟩

/-- What a scan finds. -/
theorem scanConfig_texts (scanned : scanConfig host world = .ok current) :
    ∃ listed, ConfigRepository.list host.limit (world .scan).config = .ok listed ∧
      current = textsOf host world listed.dedup := by
  obtain ⟨listed, isListed, read⟩ := except_bind scanned
  exact ⟨listed, isListed, readable_eq read⟩

theorem scanConfig_keyed (scanned : scanConfig host world = .ok current) : KeyedTexts current := by
  obtain ⟨listed, isListed, rfl⟩ := scanConfig_texts scanned
  constructor
  · intro entry member
    obtain ⟨relative, isKey, same⟩ := List.mem_filterMap.mp member
    obtain ⟨text, _, rfl⟩ := Option.map_eq_some_iff.mp same
    exact mem_list isListed (List.mem_dedup.mp isKey)
  · have nodup := List.nodup_dedup listed
    unfold textsOf
    generalize listed.dedup = texts at nodup
    induction texts with
    | nil => exact List.nodup_nil
    | cons relative rest ih =>
      obtain ⟨fresh, nodup⟩ := List.nodup_cons.mp nodup
      rw [List.filterMap_cons]
      split
      · exact ih nodup
      · rename_i entry same
        obtain ⟨text, _, rfl⟩ := Option.map_eq_some_iff.mp same
        rw [List.map_cons]
        refine List.nodup_cons.mpr ⟨fun member => fresh ?_, ih nodup⟩
        obtain ⟨entry, member, isKey⟩ := List.mem_map.mp member
        obtain ⟨other, isOther, same⟩ := List.mem_filterMap.mp member
        obtain ⟨_, _, rfl⟩ := Option.map_eq_some_iff.mp same
        have same : other = relative := isKey
        exact same ▸ isOther

theorem scanConfig_iff : (∃ current, scanConfig host world = .ok current) ↔
    (world .scan).config.Shallow (fun _ => false) host.limit ∧
      ∀ listed, ConfigRepository.list host.limit (world .scan).config = .ok listed →
        ∀ relative ∈ listed,
        ¬ ConfigRepository.Loops host.base (world (.read relative)).disk relative := by
  rw [← list_iff]
  constructor
  · rintro ⟨current, scanned⟩
    obtain ⟨listed, isListed, read⟩ := except_bind scanned
    refine ⟨⟨listed, isListed⟩, fun other same relative member => ?_⟩
    rw [isListed] at same
    cases same
    exact readable_iff.mp ⟨current, read⟩ relative (List.mem_dedup.mpr member)
  · rintro ⟨⟨listed, isListed⟩, ends⟩
    obtain ⟨current, read⟩ := readable_iff.mpr (fun relative member =>
      ends listed isListed relative (List.mem_dedup.mp member))
    refine ⟨current, ?_⟩
    unfold scanConfig
    rw [isListed]
    exact read

theorem scanPlugins_iff : (∃ plugins, scanPlugins host world = .ok plugins) ↔
    (world .plugins).plugins.Shallow skipsPlugin host.limit := by
  rw [← @files_iff skipsPlugin wantsPlugin]
  constructor
  · rintro ⟨plugins, scanned⟩
    obtain ⟨files, isFiles, _⟩ := except_map scanned
    exact ⟨files, isFiles⟩
  · rintro ⟨files, isFiles⟩
    refine ⟨files.filterMap (fun file => file.2.map (fun bytes => (posix file.1, bytes))), ?_⟩
    unfold scanPlugins
    rw [isFiles]
    rfl

theorem affectedAmong_iff {changed : Path} {candidates : List String} :
    (∃ found, affectedAmong host world relative changed candidates = .ok found) ↔
      ∀ candidate ∈ candidates, candidate ≠ relative → ∃ found,
        ConfigRepository.dependencies host.base
        (world (.dependencies relative candidate)).disk host.limit candidate = .ok found := by
  induction candidates with
  | nil => exact iff_of_true ⟨[], rfl⟩ (fun _ never => nomatch never)
  | cons candidate rest ih =>
    unfold affectedAmong
    rw [List.forall_mem_cons]
    split
    · rename_i same
      rw [ih]
      exact ⟨fun all => ⟨fun other => absurd same other, all⟩, And.right⟩
    · rename_i other
      constructor
      · rintro ⟨found, done⟩
        obtain ⟨first, isFirst, done⟩ := except_bind done
        obtain ⟨later, isLater, _⟩ := except_bind done
        exact ⟨fun _ => ⟨first, isFirst⟩, ih.mp ⟨later, isLater⟩⟩
      · rintro ⟨walks, all⟩
        obtain ⟨first, isFirst⟩ := walks other
        obtain ⟨later, isLater⟩ := ih.mpr all
        refine ⟨if changed ∈ first then candidate :: later else later, ?_⟩
        rw [isFirst, isLater]
        rfl

theorem affectedBy_iff (listed : IsListed relative) :
    (∃ found, affectedBy host world relative = .ok found) ↔ Affectable host world relative := by
  constructor
  · rintro ⟨found, done⟩
    obtain ⟨changed, isChanged, done⟩ := except_bind done
    obtain ⟨candidates, isCandidates, done⟩ := except_bind done
    obtain ⟨_, walked, _⟩ := except_bind done
    refine ⟨(resolve_listed _ _ listed).mp ⟨changed, isChanged⟩,
      list_iff.mp ⟨candidates, isCandidates⟩, ?_⟩
    intro others same candidate member other
    rw [isCandidates] at same
    cases same
    have found := affectedAmong_iff.mp ⟨_, walked⟩ candidate member other
    refine ⟨(resolve_listed _ _ (mem_list isCandidates member)).mp ?_, fun path resolved =>
      (dependencies_iff resolved).mp found⟩
    obtain ⟨_, depends⟩ := found
    unfold ConfigRepository.dependencies at depends
    split at depends
    · cases depends
    · exact ⟨_, ‹_›⟩
  · intro affectable
    obtain ⟨changed, isChanged⟩ := (resolve_listed _ _ listed).mpr affectable.ends
    obtain ⟨candidates, isCandidates⟩ := list_iff.mpr affectable.shallow
    have walked : ∃ found, affectedAmong host world relative changed candidates = .ok found := by
      refine affectedAmong_iff.mpr (fun candidate member other => ?_)
      obtain ⟨ends, walks⟩ := affectable.walks candidates isCandidates candidate member other
      obtain ⟨path, resolved⟩ := (resolve_listed _ _ (mem_list isCandidates member)).mpr ends
      exact (dependencies_iff resolved).mpr (walks path resolved)
    obtain ⟨found, isFound⟩ := walked
    refine ⟨(relative :: found).insertionSort (· ≤ ·), ?_⟩
    unfold affectedBy
    rw [isChanged]
    change (ConfigRepository.list _ _ >>= _) = _
    rw [isCandidates]
    change (affectedAmong _ _ _ _ _ >>= _) = _
    rw [isFound]
    rfl

theorem deletedReport_iff (listed : IsListed relative) :
    (∃ event, deletedReport host world relative = .ok event) ↔ Affectable host world relative := by
  rw [← affectedBy_iff listed]
  unfold deletedReport
  constructor
  · rintro ⟨event, done⟩
    obtain ⟨found, isFound, _⟩ := except_map done
    exact ⟨found, isFound⟩
  · rintro ⟨found, isFound⟩
    rw [isFound]
    exact ⟨_, rfl⟩

theorem changedReport_iff {text : String} (listed : IsListed relative) :
    (∃ event, changedReport host world (relative, text) = .ok event) ↔
      Affectable host world relative ∧ judged host world relative ≠ .error .exit := by
  rw [← affectedBy_iff listed]
  unfold changedReport
  constructor
  · rintro ⟨event, done⟩
    obtain ⟨found, isFound, done⟩ := except_bind done
    refine ⟨⟨found, isFound⟩, fun exits => ?_⟩
    dsimp only at done
    rw [exits] at done
    cases done
  · rintro ⟨⟨found, isFound⟩, stays⟩
    dsimp only
    have next : ∀ report : List String → Except Raised WatchEvent,
      (Except.ok found >>= report) = report found := fun _ => rfl
    rw [isFound, next]
    split
    · exact ⟨_, rfl⟩
    · rename_i exits
      exact absurd exits stays
    · exact ⟨_, rfl⟩

theorem emit_iff {β : Type} {report : β → Except Raised WatchEvent} {items : List β} :
    (emit report items).2 = none ↔ ∀ item ∈ items, ∃ event, report item = .ok event := by
  induction items with
  | nil => exact iff_of_true rfl (fun _ never => nomatch never)
  | cons item rest ih =>
    unfold emit
    rw [List.forall_mem_cons]
    cases reported : report item with
    | error e =>
      refine iff_of_false (fun never => by cases never) (fun all => ?_)
      obtain ⟨_, never⟩ := all.1
      cases never
    | ok event => exact ih.trans ⟨fun all => ⟨⟨event, rfl⟩, all⟩, And.right⟩

/-- Of the events of a loop as many have a property as there are items that have it. -/
theorem emit_count {β : Type} {report : β → Except Raised WatchEvent} {items : List β}
    {p : WatchEvent → Bool} {q : β → Bool}
    (same : ∀ item event, report item = .ok event → p event = q item)
    (passes : (emit report items).2 = none) :
    (emit report items).1.countP p = items.countP q := by
  induction items with
  | nil => rfl
  | cons item rest ih =>
    unfold emit at passes ⊢
    cases reported : report item with
    | error e =>
      rw [reported] at passes
      cases passes
    | ok event =>
      rw [reported] at passes
      dsimp only at passes ⊢
      rw [List.countP_cons, List.countP_cons, ih passes, same item event reported]

/-! ## One pass -/

/-- A pass that does not raise. -/
inductive Passed (host : WatchHost α) (world : World) (watcher : Watcher) :
    List WatchEvent → Watcher → Prop where
  | same (current : List (String × String)) (plugins : List (String × List UInt8))
      (scanned : scanConfig host world = .ok current)
      (deleted : (emit (deletedReport host world) (watcher.removed current)).2 = none)
      (changed : (emit (changedReport host world) (watcher.updated host current)).2 = none)
      (scannedPlugins : scanPlugins host world = .ok plugins)
        (same : watcher.changedPaths host plugins = []) :
      Passed host world watcher ((emit (deletedReport host world) (watcher.removed current)).1 ++
        (emit (changedReport host world) (watcher.updated host current)).1) ⟨current, watcher.plugins⟩
  | loaded (current : List (String × String)) (plugins : List (String × List UInt8)) (generation : Nat)
      (diagnostics : List (String × String)) (scanned : scanConfig host world = .ok current)
      (deleted : (emit (deletedReport host world) (watcher.removed current)).2 = none)
      (changed : (emit (changedReport host world) (watcher.updated host current)).2 = none)
      (scannedPlugins : scanPlugins host world = .ok plugins)
        (differs : watcher.changedPaths host plugins ≠ [])
      (loaded : host.loadPlugins (world .plugins).plugins = .ok (generation, diagnostics)) :
      Passed host world watcher ((emit (deletedReport host world) (watcher.removed current)).1 ++
        (emit (changedReport host world) (watcher.updated host current)).1 ++
          [.plugins generation diagnostics (watcher.changedPaths host plugins)]) ⟨current, plugins⟩

theorem pass_passed {events : List WatchEvent} {next : Watcher}
    (done : watcher.pass host world = (events, .ok next)) :
    Passed host world watcher events next := by
  unfold Watcher.pass at done
  split at done
  · cases done
  · rename_i current scanned
    split at done
    · cases done
    · rename_i deletions isDeleted
      split at done
      · cases done
      · rename_i changes isChanged
        have deleted := congrArg Prod.snd isDeleted
        have changed := congrArg Prod.snd isChanged
        have deletions := congrArg Prod.fst isDeleted
        have changes := congrArg Prod.fst isChanged
        dsimp only at deletions changes
        rw [← deletions, ← changes] at done
        split at done
        · cases done
        · rename_i plugins scannedPlugins
          split at done
          · rename_i same
            cases done
            exact .same current plugins scanned deleted changed scannedPlugins same
          · rename_i differs
            split at done
            · cases done
            · rename_i generation diagnostics loaded
              cases done
              exact .loaded current plugins generation diagnostics scanned deleted changed
                scannedPlugins differs loaded

/-- A pass ends without raising if and only if the directories are such that it can. -/
theorem pass_iff (keyed : KeyedTexts watcher.config) :
    (∃ next, (watcher.pass host world).2 = .ok next) ↔ Survivable host world watcher := by
  have listedRemoved : ∀ current, ∀ relative ∈ watcher.removed current, IsListed relative := by
    intro current relative member
    obtain ⟨entry, isEntry, rfl⟩ := List.mem_map.mp (List.mem_filter.mp member).1
    exact keyed.listed entry isEntry
  constructor
  · rintro ⟨next, done⟩
    have survived : ∀ current plugins, scanConfig host world = .ok current →
      scanPlugins host world = .ok plugins →
        (emit (deletedReport host world) (watcher.removed current)).2 = none →
        (emit (changedReport host world) (watcher.updated host current)).2 = none →
        (watcher.changedPaths host plugins ≠ [] →
          ∃ loaded, host.loadPlugins (world .plugins).plugins = .ok loaded) →
        Survivable host world watcher := by
      intro current plugins scanned scannedPlugins deleted changed loads
      have updates : ∀ relative ∈ (watcher.updated host current).map Prod.fst,
          Affectable host world relative ∧ judged host world relative ≠ .error .exit := by
        intro relative member
        obtain ⟨⟨_, text⟩, isEntry, rfl⟩ := List.mem_map.mp member
        have listed := (scanConfig_keyed scanned).listed _ (List.mem_filter.mp isEntry).1
        exact (changedReport_iff listed).mp (emit_iff.mp changed _ isEntry)
      have isCurrent : ∀ other, scanConfig host world = .ok other → other = current := by
        intro other same
        rw [scanned] at same
        exact (Except.ok.inj same).symm
      obtain ⟨shallow, ends⟩ := scanConfig_iff.mp ⟨current, scanned⟩
      refine ⟨shallow, ends, ?_, ?_, scanPlugins_iff.mp ⟨plugins, scannedPlugins⟩, ?_⟩
      · intro other same relative member
        cases isCurrent other same
        obtain gone | member := member
        · exact (deletedReport_iff (listedRemoved current relative gone)).mp
            (emit_iff.mp deleted relative gone)
        · exact (updates relative member).1
      · intro other same relative member
        cases isCurrent other same
        exact (updates relative member).2
      · intro other same differs
        rw [scannedPlugins] at same
        cases same
        exact loads differs
    obtain ⟨events, passed⟩ : ∃ events, Passed host world watcher events next :=
      ⟨_, pass_passed (Prod.ext rfl done)⟩
    cases passed with
    | same current plugins scanned deleted changed scannedPlugins same =>
      exact survived current plugins scanned scannedPlugins deleted changed
        (fun differs => absurd same differs)
    | loaded current plugins generation diagnostics scanned deleted changed scannedPlugins _ loaded =>
      exact survived current plugins scanned scannedPlugins deleted changed (fun _ => ⟨_, loaded⟩)
  · intro survivable
    obtain ⟨current, scanned⟩ := scanConfig_iff.mpr ⟨survivable.shallow, survivable.ends⟩
    obtain ⟨plugins, scannedPlugins⟩ := scanPlugins_iff.mpr survivable.shallowPlugins
    have deleted : (emit (deletedReport host world) (watcher.removed current)).2 = none :=
      emit_iff.mpr (fun relative member =>
        (deletedReport_iff (listedRemoved current relative member)).mpr
        (survivable.affected current scanned relative (.inl member)))
    have changed : (emit (changedReport host world) (watcher.updated host current)).2 = none := by
      refine emit_iff.mpr (fun entry isEntry => ?_)
      obtain ⟨relative, text⟩ := entry
      have listed := (scanConfig_keyed scanned).listed _ (List.mem_filter.mp isEntry).1
      have member : relative ∈ (watcher.updated host current).map Prod.fst :=
        List.mem_map.mpr ⟨_, isEntry, rfl⟩
      exact (changedReport_iff listed).mpr
        ⟨survivable.affected current scanned relative (.inr member),
          survivable.judges current scanned relative member⟩
    unfold Watcher.pass
    rw [scanned]
    dsimp only
    cases isDeleted : emit (deletedReport host world) (watcher.removed current) with
    | mk deletions fault =>
      rw [isDeleted] at deleted
      cases deleted
      cases isChanged : emit (changedReport host world) (watcher.updated host current) with
      | mk changes fault =>
        rw [isChanged] at changed
        cases changed
        dsimp only
        rw [scannedPlugins]
        dsimp only
        split
        · exact ⟨_, rfl⟩
        · rename_i differs
          obtain ⟨⟨generation, diagnostics⟩, loaded⟩ := survivable.loads plugins scannedPlugins differs
          rw [loaded]
          exact ⟨_, rfl⟩

/-! ## What a pass reports -/

def WatchEvent.reportsChange (relative : String) : WatchEvent → Bool
  | .changed path _ _ => path = relative
  | .invalid path _ _ _ => path = relative
  | _ => false

def WatchEvent.reportsDeletion (relative : String) : WatchEvent → Bool
  | .deleted path _ => path = relative
  | _ => false

def WatchEvent.reportsPlugins : WatchEvent → Bool
  | .plugins _ _ _ => true
  | _ => false

/-- One of the events is such, if and only if the condition holds, and never two. -/
structure Once (p : WatchEvent → Bool) (events : List WatchEvent) (condition : Prop) : Prop where
  one : condition → events.countP p = 1
  none : ¬ condition → events.countP p = 0

/-- A configuration that the scan lists and can read. -/
def Readable (host : WatchHost α) (world : World) (relative text : String) : Prop :=
  ∃ listed, ConfigRepository.list host.limit (world .scan).config = .ok listed ∧ relative ∈ listed ∧
    ConfigRepository.read host.base (world (.read relative)).disk relative = .ok text

/-- A plugin file that the scan can read. -/
def PluginFile (host : WatchHost α) (world : World) (path : String) (bytes : List UInt8) : Prop :=
  ∃ plugins, scanPlugins host world = .ok plugins ∧ plugins.lookup path = some bytes

/-- The events of a pass between two states of the directories. -/
structure Reports (host : WatchHost α) (before now : World) (events : List WatchEvent) : Prop where
  changes : ∀ relative, Once (·.reportsChange relative) events
    (∃ text, Readable host now relative text ∧ ¬ Readable host before relative text)
  deletions : ∀ relative, Once (·.reportsDeletion relative) events
    ((∃ text, Readable host before relative text) ∧ ¬ ∃ text, Readable host now relative text)
  plugins : Once (·.reportsPlugins) events
    (∃ path bytes, ¬ (PluginFile host before path bytes ↔ PluginFile host now path bytes))

/-- What a watcher has read is what the directories held in its last pass. -/
structure Remembers (host : WatchHost α) (world : World) (watcher : Watcher) : Prop where
  keyed : KeyedTexts watcher.config
  config : ∀ relative text, watcher.config.lookup relative = some text ↔
    Readable host world relative text
  plugins : ∀ path bytes, watcher.plugins.lookup path = some bytes ↔ PluginFile host world path bytes

theorem scanConfig_lookup (scanned : scanConfig host world = .ok current) {text : String} :
    current.lookup relative = some text ↔ Readable host world relative text := by
  rw [Lookup.iff_mem (scanConfig_keyed scanned).unique]
  obtain ⟨listed, isListed, rfl⟩ := scanConfig_texts scanned
  constructor
  · intro member
    obtain ⟨other, isOther, same⟩ := List.mem_filterMap.mp member
    obtain ⟨_, found, same⟩ := Option.map_eq_some_iff.mp same
    cases same
    refine ⟨listed, isListed, List.mem_dedup.mp isOther, ?_⟩
    cases isRead : ConfigRepository.read host.base (world (.read relative)).disk relative with
    | error e =>
      rw [isRead] at found
      cases found
    | ok text =>
      rw [isRead] at found
      cases found
      rfl
  · rintro ⟨other, same, member, isRead⟩
    rw [isListed] at same
    cases same
    refine List.mem_filterMap.mpr ⟨relative, List.mem_dedup.mpr member, ?_⟩
    rw [isRead]
    rfl

theorem scanPlugins_lookup {plugins : List (String × List UInt8)}
    (scanned : scanPlugins host world = .ok plugins) {path : String}
    {bytes : List UInt8} : plugins.lookup path = some bytes ↔ PluginFile host world path bytes := by
  constructor
  · exact fun found => ⟨plugins, scanned, found⟩
  · rintro ⟨other, same, found⟩
    rw [scanned] at same
    cases same
    exact found

theorem version_injective (collisionFree : Function.Injective host.digest) :
    Function.Injective host.version := by
  intro text other same
  have same := collisionFree same
  exact String.toByteArray_inj.mp (ByteArray.ext (Array.toList_inj.mp same))

theorem deletedReport_eq {event : WatchEvent} (done : deletedReport host world relative = .ok event) :
    ∃ affected, event = .deleted relative affected := by
  obtain ⟨affected, _, rfl⟩ := except_map done
  exact ⟨affected, rfl⟩

theorem changedReport_eq {entry : String × String} {event : WatchEvent}
    (done : changedReport host world entry = .ok event) :
    ∃ affected, event = .changed entry.1 (host.version entry.2) affected ∨
      ∃ error, event = .invalid entry.1 (host.version entry.2) affected error := by
  obtain ⟨affected, _, done⟩ := except_bind done
  split at done
  · cases done
    exact ⟨affected, .inl rfl⟩
  · cases done
  · cases done
    exact ⟨affected, .inr ⟨_, rfl⟩⟩

theorem countP_key {β : Type} {entries : List β} {key : β → String} (unique : (entries.map key).Nodup) :
    (relative ∈ entries.map key → entries.countP (fun entry => key entry = relative) = 1) ∧
      (relative ∉ entries.map key → entries.countP (fun entry => key entry = relative) = 0) := by
  have same : entries.countP (fun entry => key entry = relative) =
    (entries.map key).count relative := by
    rw [List.count_eq_countP, List.countP_map]
    refine List.countP_congr (fun entry _ => ?_)
    rw [Function.comp_apply, decide_eq_true_iff, beq_iff_eq]
  rw [same]
  exact ⟨List.count_eq_one_of_mem unique, List.count_eq_zero_of_not_mem⟩

theorem mem_removed (scanned : scanConfig host world = .ok current) {before : World}
    (remembers : Remembers host before watcher) :
    relative ∈ watcher.removed current ↔
      (∃ text, Readable host before relative text) ∧ ¬ ∃ text, Readable host world relative text := by
  have old : relative ∈ watcher.config.map Prod.fst ↔ ∃ text, Readable host before relative text := by
    constructor
    · intro member
      obtain ⟨text, found⟩ := Lookup.of_key member
      exact ⟨text, (remembers.config relative text).mp found⟩
    · rintro ⟨text, isText⟩
      exact Lookup.mem_keys ((remembers.config relative text).mpr isText)
  have new : relative ∈ current.map Prod.fst ↔ ∃ text, Readable host world relative text := by
    constructor
    · intro member
      obtain ⟨text, found⟩ := Lookup.of_key member
      exact ⟨text, (scanConfig_lookup scanned).mp found⟩
    · rintro ⟨text, isText⟩
      exact Lookup.mem_keys ((scanConfig_lookup scanned).mpr isText)
  unfold Watcher.removed
  rw [List.mem_filter, decide_eq_true_iff, old, new]

theorem mem_updated (collisionFree : Function.Injective host.digest)
    (scanned : scanConfig host world = .ok current)
    {before : World} (remembers : Remembers host before watcher) :
    relative ∈ (watcher.updated host current).map Prod.fst ↔
      ∃ text, Readable host world relative text ∧ ¬ Readable host before relative text := by
  have unique := (scanConfig_keyed scanned).unique
  constructor
  · intro member
    obtain ⟨⟨_, text⟩, isEntry, rfl⟩ := List.mem_map.mp member
    obtain ⟨isEntry, differs⟩ := List.mem_filter.mp isEntry
    refine ⟨text, (scanConfig_lookup scanned).mp ((Lookup.iff_mem unique).mpr isEntry), fun was => ?_⟩
    have found := (remembers.config _ text).mpr was
    refine of_decide_eq_true differs ?_
    rw [found]
    rfl
  · rintro ⟨text, isText, wasNot⟩
    have isEntry := (Lookup.iff_mem unique).mp ((scanConfig_lookup scanned).mpr isText)
    refine List.mem_map.mpr ⟨(relative, text), List.mem_filter.mpr ⟨isEntry, decide_eq_true ?_⟩, rfl⟩
    intro same
    obtain ⟨other, found, same⟩ := Option.map_eq_some_iff.mp same
    cases version_injective collisionFree same
    exact wasNot ((remembers.config relative text).mp found)

theorem changedPaths_nil (collisionFree : Function.Injective host.digest)
    {plugins : List (String × List UInt8)} :
    watcher.changedPaths host plugins = [] ↔
      ∀ path, plugins.lookup path = watcher.plugins.lookup path := by
  unfold Watcher.changedPaths
  rw [← List.length_eq_zero_iff, List.length_insertionSort, List.length_eq_zero_iff,
    List.filter_eq_nil_iff]
  constructor
  · intro allSame path
    by_cases member : path ∈ ((plugins ++ watcher.plugins).map Prod.fst).dedup
    · have same := allSame path member
      rw [decide_eq_true_iff, not_not] at same
      exact Option.map_injective collisionFree same
    · rw [List.mem_dedup, List.map_append, List.mem_append, not_or] at member
      rw [Lookup.none_of_key member.1, Lookup.none_of_key member.2]
  · intro same path _ differs
    exact of_decide_eq_true differs (congrArg (Option.map host.digest) (same path))

/-- The loops over the configurations report each change and each deletion once, and no plugins. -/
theorem loops_report (collisionFree : Function.Injective host.digest) {before : World}
    (remembers : Remembers host before watcher)
    (scanned : scanConfig host world = .ok current)
    (deleted : (emit (deletedReport host world) (watcher.removed current)).2 = none)
    (changed : (emit (changedReport host world) (watcher.updated host current)).2 = none)
    {events : List WatchEvent}
    (isEvents : events = (emit (deletedReport host world) (watcher.removed current)).1 ++
      (emit (changedReport host world) (watcher.updated host current)).1) :
    (∀ relative, Once (·.reportsChange relative) events
        (∃ text, Readable host world relative text ∧ ¬ Readable host before relative text)) ∧
      (∀ relative, Once (·.reportsDeletion relative) events
        ((∃ text, Readable host before relative text) ∧ ¬ ∃ text, Readable host world relative text)) ∧
      events.countP (·.reportsPlugins) = 0 := by
  subst isEvents
  have deletions : ∀ (p : WatchEvent → Bool) (q : String → Bool),
    (∀ path affected, p (.deleted path affected) = q path) →
      (emit (deletedReport host world) (watcher.removed current)).1.countP p =
        (watcher.removed current).countP q := by
    intro p q same
    refine emit_count (fun path event done => ?_) deleted
    obtain ⟨affected, rfl⟩ := deletedReport_eq done
    exact same path affected
  have changes : ∀ (p : WatchEvent → Bool) (q : String → Bool),
    (∀ path version affected, p (.changed path version affected) = q path) →
      (∀ path version affected error, p (.invalid path version affected error) = q path) →
      (emit (changedReport host world) (watcher.updated host current)).1.countP p =
        (watcher.updated host current).countP (fun entry => q entry.1) := by
    intro p q sameChanged sameInvalid
    refine emit_count (fun entry event done => ?_) changed
    obtain ⟨affected, rfl | ⟨error, rfl⟩⟩ := changedReport_eq done
    · exact sameChanged entry.1 _ affected
    · exact sameInvalid entry.1 _ affected error
  have never : ∀ {β : Type} (items : List β), items.countP (fun _ => false) = 0 := by
    intro β items
    rw [List.countP_false]
    rfl
  have uniqueRemoved : ((watcher.removed current).map id).Nodup := by
    rw [List.map_id]
    exact remembers.keyed.unique.filter _
  have uniqueUpdated : ((watcher.updated host current).map Prod.fst).Nodup :=
    (scanConfig_keyed scanned).unique.sublist (List.filter_sublist.map _)
  refine ⟨fun relative => ?_, fun relative => ?_, ?_⟩
  · obtain ⟨one, none⟩ : (relative ∈ (watcher.updated host current).map Prod.fst → _) ∧ _ :=
      countP_key uniqueUpdated
    rw [mem_updated collisionFree scanned remembers] at one none
    have count : ∀ n, (watcher.updated host current).countP (fun entry => entry.1 = relative) = n →
        ((emit (deletedReport host world) (watcher.removed current)).1 ++
          (emit (changedReport host world) (watcher.updated host current)).1).countP
            (·.reportsChange relative) = n := by
      intro n isCount
      rw [List.countP_append, deletions _ (fun _ => false) (fun _ _ => rfl), never,
        changes _ (fun path => path = relative) (fun _ _ _ => rfl) (fun _ _ _ _ => rfl), isCount,
          Nat.zero_add]
    exact ⟨fun condition => count 1 (one condition), fun otherwise => count 0 (none otherwise)⟩
  · obtain ⟨one, none⟩ : (relative ∈ (watcher.removed current).map id → _) ∧ _ :=
      countP_key uniqueRemoved
    rw [List.map_id, mem_removed scanned remembers] at one none
    have count : ∀ n, (watcher.removed current).countP (fun path => path = relative) = n →
        ((emit (deletedReport host world) (watcher.removed current)).1 ++
          (emit (changedReport host world) (watcher.updated host current)).1).countP
            (·.reportsDeletion relative) = n := by
      intro n isCount
      rw [List.countP_append, deletions _ (fun path => path = relative) (fun _ _ => rfl), isCount,
        changes _ (fun _ => false) (fun _ _ _ => rfl) (fun _ _ _ _ => rfl), never, Nat.add_zero]
    exact ⟨fun condition => count 1 (one condition), fun otherwise => count 0 (none otherwise)⟩
  · rw [List.countP_append, deletions _ (fun _ => false) (fun _ _ => rfl), never,
      changes _ (fun _ => false) (fun _ _ _ => rfl) (fun _ _ _ _ => rfl), never]

theorem pluginsChanged_iff (collisionFree : Function.Injective host.digest) {before : World}
    (remembers : Remembers host before watcher)
    {plugins : List (String × List UInt8)} (scanned : scanPlugins host world = .ok plugins) :
    watcher.changedPaths host plugins ≠ [] ↔
      ∃ path bytes, ¬ (PluginFile host before path bytes ↔ PluginFile host world path bytes) := by
  rw [ne_eq, changedPaths_nil collisionFree]
  have agrees : ∀ path, plugins.lookup path = watcher.plugins.lookup path ↔
      ∀ bytes, (PluginFile host before path bytes ↔ PluginFile host world path bytes) := by
    intro path
    constructor
    · intro same bytes
      rw [← remembers.plugins, ← scanPlugins_lookup scanned, same]
    · intro same
      refine Option.ext (fun bytes => ?_)
      rw [scanPlugins_lookup scanned, remembers.plugins]
      exact (same bytes).symm
  constructor
  · intro differs
    obtain ⟨path, differs⟩ := not_forall.mp differs
    rw [agrees] at differs
    obtain ⟨bytes, differs⟩ := not_forall.mp differs
    exact ⟨path, bytes, differs⟩
  · rintro ⟨path, bytes, differs⟩ all
    exact differs ((agrees path).mp (all path) bytes)

/-- A pass that does not raise reports what has changed since the last, and remembers what it has
read. -/
theorem passed_reports (collisionFree : Function.Injective host.digest) {before : World}
    (remembers : Remembers host before watcher)
    {events : List WatchEvent} {next : Watcher} (passed : Passed host world watcher events next) :
    Reports host before world events ∧ Remembers host world next := by
  cases passed with
  | same current plugins scanned deleted changed scannedPlugins same =>
    obtain ⟨changes, deletions, silent⟩ :=
      loops_report collisionFree remembers scanned deleted changed rfl
    have unchanged := (changedPaths_nil collisionFree).mp same
    constructor
    · refine ⟨changes, deletions, fun differs => ?_, fun _ => silent⟩
      exact absurd same ((pluginsChanged_iff collisionFree remembers scannedPlugins).mpr differs)
    · refine ⟨scanConfig_keyed scanned, fun relative text => scanConfig_lookup scanned,
        fun path bytes => ?_⟩
      rw [← scanPlugins_lookup scannedPlugins, unchanged path]
  | loaded current plugins generation diagnostics scanned deleted changed scannedPlugins
      differs loaded =>
    obtain ⟨changes, deletions, silent⟩ :=
      loops_report collisionFree remembers scanned deleted changed rfl
    have differs := (pluginsChanged_iff collisionFree remembers scannedPlugins).mp differs
    have quiet : ∀ (p : WatchEvent → Bool) (events : List WatchEvent),
        p (WatchEvent.plugins generation diagnostics (watcher.changedPaths host plugins)) = false →
        (events ++ [WatchEvent.plugins generation diagnostics
          (watcher.changedPaths host plugins)]).countP p = events.countP p := by
      intro p events silent
      rw [List.countP_append, List.countP_singleton, silent]
      rfl
    constructor
    · constructor
      · intro relative
        exact ⟨fun condition => (quiet _ _ rfl).trans ((changes relative).one condition),
          fun otherwise => (quiet _ _ rfl).trans ((changes relative).none otherwise)⟩
      · intro relative
        exact ⟨fun condition => (quiet _ _ rfl).trans ((deletions relative).one condition),
          fun otherwise => (quiet _ _ rfl).trans ((deletions relative).none otherwise)⟩
      · refine ⟨fun _ => ?_, fun otherwise => absurd differs otherwise⟩
        rw [List.countP_append, silent]
        rfl
    · exact ⟨scanConfig_keyed scanned, fun relative text => scanConfig_lookup scanned,
        fun path bytes => scanPlugins_lookup scannedPlugins⟩

theorem create_remembers (created : Watcher.create host world = .ok watcher) :
    Remembers host world watcher := by
  obtain ⟨config, scanned, created⟩ := except_bind created
  obtain ⟨plugins, scannedPlugins, created⟩ := except_bind created
  cases created
  exact ⟨scanConfig_keyed scanned, fun relative text => scanConfig_lookup scanned,
    fun path bytes => scanPlugins_lookup scannedPlugins⟩

/-! ## The life of the task -/

variable {s t : Lifespan} {first : World} {acts : List LifespanAct}

/-- Each pass finds the directories such that it does not raise. -/
def Quiet (host : WatchHost α) (s : Lifespan) (act : LifespanAct) : Prop :=
  ∀ world watcher, act = .pass world → s.task = .running watcher → Survivable host world watcher

/-- The world of the last pass. -/
def lastWorld (first : World) : List LifespanAct → World
  | [] => first
  | .pass world :: acts => lastWorld world acts
  | .shutdown :: acts => lastWorld first acts

/-- The watcher runs until the shutdown, which has reached the cleanup. -/
structure Alive (host : WatchHost α) (last : World) (s : Lifespan) : Prop where
  runs : s.down = false → ∃ watcher, s.task = .running watcher ∧ Remembers host last watcher
  cleaned : s.cleaned = s.down

theorem pass_step {watcher : Watcher} (up : s.down = false) (running : s.task = .running watcher) :
    s.step host (.pass world) = some { s with
      task := match (watcher.pass host world).2 with
        | .ok watcher => .running watcher
        | .error e => .raised e
      events := s.events ++ (watcher.pass host world).1 } := by
  unfold Lifespan.step
  rw [up, running]
  rfl

/-- A pass of directories such that it can leaves the task running. -/
theorem pass_runs (collisionFree : Function.Injective host.digest) {before : World}
    (up : s.down = false)
    (running : s.task = .running watcher) (remembers : Remembers host before watcher)
    (survivable : Survivable host world watcher) :
    ∃ next events, s.step host (.pass world) =
      some { s with task := .running next, events := s.events ++ events } ∧
      Reports host before world events ∧ Remembers host world next := by
  obtain ⟨next, done⟩ := (pass_iff remembers.keyed).mpr survivable
  obtain ⟨events, isEvents⟩ : ∃ events, watcher.pass host world = (events, .ok next) :=
    ⟨_, Prod.ext rfl done⟩
  obtain ⟨reports, later⟩ := passed_reports collisionFree remembers (pass_passed isEvents)
  refine ⟨next, events, ?_, reports, later⟩
  rw [pass_step up running, isEvents]

theorem shutdown_step (up : s.down = false) (running : s.task = .running watcher) :
    s.step host .shutdown = some { s with task := .finished, down := true, cleaned := true } := by
  unfold Lifespan.step
  rw [up, running]
  rfl

theorem alive_step (collisionFree : Function.Injective host.digest) {last : World}
    (alive : Alive host last s) {act : LifespanAct}
    (calm : Quiet host s act) (stepped : s.step host act = some t) :
    Alive host (lastWorld last [act]) t := by
  have up : s.down = false := by
    cases down : s.down with
    | false => rfl
    | true =>
      unfold Lifespan.step at stepped
      rw [down] at stepped
      cases act <;> cases stepped
  obtain ⟨watcher, running, remembers⟩ := alive.runs up
  cases act with
  | pass world =>
    obtain ⟨next, events, same, _, later⟩ :=
      pass_runs collisionFree up running remembers (calm world watcher rfl running)
    rw [same] at stepped
    cases stepped
    exact ⟨fun _ => ⟨next, rfl, later⟩, alive.cleaned⟩
  | shutdown =>
    rw [shutdown_step up running] at stepped
    cases stepped
    exact ⟨fun never => absurd never Bool.noConfusion, rfl⟩

theorem alive_run (collisionFree : Function.Injective host.digest)
    (run : Run (Guarded (fun s act t => s.step host act = some t) (Quiet host)) s acts t)
    (alive : Alive host first s) :
    Alive host (lastWorld first acts) t := by
  induction run generalizing first with
  | nil s => exact alive
  | @cons s act _ _ _ head tail ih =>
    have alive := ih (alive_step collisionFree alive head.2 head.1)
    cases act with
    | pass world => exact alive
    | shutdown => exact alive

/-- Once the task has raised no shutdown reaches the cleanup. -/
theorem raised_run (run : Run (fun s act t => s.step host act = some t) s acts t)
    (raised : ∃ e, s.task = .raised e)
    (uncleaned : s.cleaned = false) : t.cleaned = false := by
  refine (run.invariant (P := fun s => (∃ e, s.task = .raised e) ∧ s.cleaned = false) ?_
    ⟨raised, uncleaned⟩).2
  rintro s act t ⟨⟨e, raised⟩, uncleaned⟩ stepped
  unfold Lifespan.step at stepped
  cases act with
  | pass world =>
    dsimp only at stepped
    split at stepped
    · cases stepped
    · rw [raised] at stepped
      cases stepped
  | shutdown =>
    dsimp only at stepped
    split at stepped
    · cases stepped
    · rw [raised] at stepped
      cases stepped
      exact ⟨⟨e, rfl⟩, uncleaned⟩

/-- As long as each pass finds the directories such that it does not raise, the watcher runs,
reports what has changed since its last pass and nothing else, and the shutdown reaches the cleanup.
A pass that finds them otherwise ends the task, and from then on no shutdown reaches it. -/
theorem watcher_survives (collisionFree : Function.Injective host.digest)
    (created : Watcher.create host first = .ok watcher)
    (run : Run (Guarded (fun s act t => s.step host act = some t) (Quiet host))
      (Lifespan.begin watcher) acts s) :
    (s.down = true → s.cleaned = true) ∧
      (s.down = false → ∃ watcher, s.task = .running watcher ∧
        (∀ world, Survivable host world watcher → ∃ next events,
          s.step host (.pass world) =
            some { s with task := .running next, events := s.events ++ events } ∧
            Reports host (lastWorld first acts) world events) ∧
        (∀ world, ¬ Survivable host world watcher → ∃ dead, s.step host (.pass world) = some dead ∧
          (∃ e, dead.task = .raised e) ∧
          ∀ later end',
            Run (fun s act t => s.step host act = some t) dead later end' → end'.cleaned = false) ∧
        ∃ end', s.step host .shutdown = some end' ∧ end'.cleaned = true) := by
  have begins : Alive host first (Lifespan.begin watcher) :=
    ⟨fun _ => ⟨watcher, rfl, create_remembers created⟩, rfl⟩
  have alive := alive_run collisionFree run begins
  refine ⟨alive.cleaned.trans, fun up => ?_⟩
  obtain ⟨watcher, running, remembers⟩ := alive.runs up
  refine ⟨watcher, running, fun world survivable => ?_, fun world fatal => ?_, ?_⟩
  · obtain ⟨next, events, stepped, reports, _⟩ :=
      pass_runs collisionFree up running remembers survivable
    exact ⟨next, events, stepped, reports⟩
  · have raised : ∃ e, (watcher.pass host world).2 = .error e := by
      cases outcome : (watcher.pass host world).2 with
      | error e => exact ⟨e, rfl⟩
      | ok next => exact absurd ((pass_iff remembers.keyed).mp ⟨next, outcome⟩) fatal
    obtain ⟨e, outcome⟩ := raised
    refine ⟨_, pass_step up running, ⟨e, ?_⟩, fun later end' tail => ?_⟩
    · rw [outcome]
    · refine raised_run tail ⟨e, ?_⟩ ?_
      · rw [outcome]
      · exact alive.cleaned.trans up
  · exact ⟨_, shutdown_step up running, rfl⟩

end Survival

section Runs

/-- A host whose digests are the bytes, and whose loader, diagnosis and plugins accept everything. -/
def plainHost : WatchHost Unit where
  base := ["srv"]
  limit := 100
  scratch := fun _ => none
  load := fun _ _ => .ok ()
  diagnose := fun _ => .ok ⟨"generic", true, []⟩
  digest := fun bytes => String.ofList (bytes.map (fun byte => Char.ofNat byte.toNat))
  loadPlugins := fun _ => .ok (0, [])

theorem plainHost_collisionFree : Function.Injective plainHost.digest := by
  intro bytes others same
  refine List.map_injective_iff.mpr ?_ (String.ofList_injective same)
  intro byte other same
  have values := congrArg Char.toNat same
  have small : ∀ byte : UInt8, (Char.ofNat byte.toNat).toNat = byte.toNat := by
    intro byte
    have bound := byte.toNat_lt
    have valid : byte.toNat.isValidChar := .inl (by omega)
    unfold Char.ofNat
    rw [dif_pos valid]
    rfl
  rw [small, small] at values
  exact UInt8.toNat_inj.mp values

/-- The directory of two YAML files of these bytes, which do not change while a pass reads them, and
no plugins. -/
def twoFiles (first second : List UInt8) : World := fun _ =>
  { config := some (0,
    .file ⟨"a.yaml", by decide⟩ (some first) (.file ⟨"b.yaml", by decide⟩ (some second) .done))
    plugins := none
    disk :=
      { realpath := normal
        loops := fun _ => false
        node := fun path => if path = ["srv", "config", "a.yaml"] then .file (some first)
          else if path = ["srv", "config", "b.yaml"] then .file (some second) else .missing } }

/-- A file that changes is reported, and the shutdown cleans up. -/
theorem watcher_survives_edit :
    ∃ watcher s, Watcher.create plainHost (twoFiles [120] [121]) = .ok watcher ∧
    Run (Guarded (fun s act t => s.step plainHost act = some t) (Quiet plainHost))
    (Lifespan.begin watcher)
      [.pass (twoFiles [122] [121])] s ∧ s.events.length = 1 ∧
        ∃ done, s.step plainHost .shutdown = some done ∧ done.cleaned = true := by
  have passes : ((Watcher.create plainHost (twoFiles [120] [121])).toOption.any (fun watcher =>
      (watcher.pass plainHost (twoFiles [122] [121])).2.toOption.isSome &&
        (watcher.pass plainHost (twoFiles [122] [121])).1.length = 1)) = true := by decide +kernel
  cases created : Watcher.create plainHost (twoFiles [120] [121]) with
  | error e =>
    rw [created] at passes
    cases passes
  | ok watcher =>
    rw [created] at passes
    obtain ⟨ends, one⟩ := Bool.and_eq_true_iff.mp passes
    cases outcome : (watcher.pass plainHost (twoFiles [122] [121])).2 with
    | error e =>
      rw [outcome] at ends
      cases ends
    | ok next =>
      have survivable := (pass_iff (create_remembers created).keyed).mp ⟨next, outcome⟩
      have calm : Quiet plainHost (Lifespan.begin watcher) (.pass (twoFiles [122] [121])) := by
        rintro world other same running
        cases same
        cases running
        exact survivable
      have run : Run (Guarded (fun s act t => s.step plainHost act = some t) (Quiet plainHost))
        (Lifespan.begin watcher)
          [.pass (twoFiles [122] [121])] _ := .single ⟨pass_step rfl rfl, calm⟩
      obtain ⟨_, lives⟩ := watcher_survives plainHost_collisionFree created run
      obtain ⟨_, _, _, _, cleans⟩ := lives rfl
      exact ⟨watcher, _, rfl, run, of_decide_eq_true one, cleans⟩

/-- A file that is no UTF-8 ends the watcher when another one changes. -/
theorem watcher_dies :
    ¬ ∀ (host : WatchHost Unit) (first : World) (watcher : Watcher) (acts : List LifespanAct)
    (s : Lifespan),
    Function.Injective host.digest → Watcher.create host first = .ok watcher →
    Run (fun s act t => s.step host act = some t) (Lifespan.begin watcher) acts s → s.down = true →
      s.cleaned = true := by
  intro always
  have raises : ((Watcher.create plainHost (twoFiles [120] [255])).toOption.any (fun watcher =>
      (watcher.pass plainHost (twoFiles [121] [255])).2.toOption.isNone)) = true := by decide +kernel
  cases created : Watcher.create plainHost (twoFiles [120] [255]) with
  | error e =>
    rw [created] at raises
    cases raises
  | ok watcher =>
    rw [created] at raises
    cases outcome : (watcher.pass plainHost (twoFiles [121] [255])).2 with
    | ok next =>
      have raises : (watcher.pass plainHost (twoFiles [121] [255])).2.toOption.isNone = true := raises
      rw [outcome] at raises
      cases raises
    | error e =>
      have passed : (Lifespan.begin watcher).step plainHost (.pass (twoFiles [121] [255])) =
        some { task := .raised e, events := _ } :=
        (pass_step rfl rfl).trans (by rw [outcome]; rfl)
      have stopped : ∀ events,
        ({ task := .raised e, events := events } : Lifespan).step plainHost .shutdown =
          some { task := .raised e, events := events, down := true } := fun _ => rfl
      have cleaned := always plainHost _ watcher _ _ plainHost_collisionFree created
        (.cons passed (.single (stopped _))) rfl
      cases cleaned

end Runs

end LocalFlow
