import Mathlib
import LocalFlow.Library.Entering
import LocalFlow.Plugins

/-! Loading a directory of plugins, as files that fill one table of names and aliases: which
directories load file by file, so that a file that fails leaves nothing behind and no other file
fails with it. -/
namespace LocalFlow
open Entering

abbrev PluginAttempt := Attempt PyKey PluginEntry PluginError

section Steps
variable (host : PluginHost)

def aliasSteps (loaded : PluginEntry) (raises : Option PluginError) : List PyObject → List PluginAttempt
  | [] => raises.toList.map .stop
  | other :: rest =>
    match other.hash with
    | .error e => [.stop e]
    | .ok key => .enter key (.ok loaded) (duplicatePlugin (host.text other)) ::
        aliasSteps loaded raises rest

def Registration.steps (digest : String) (generation : Nat) (path : String)
    (registration : Registration) :
    List PluginAttempt :=
  match registration.build host with
  | .error e => [.enter (.str registration.name) (.error e) (duplicatePlugin registration.name)]
  | .ok instance' =>
    let loaded := ⟨registration.name, registration.version, digest, generation, instance', path⟩
    .enter (.str registration.name) (.ok loaded) (duplicatePlugin registration.name) ::
      match instance'.getattr "aliases" (.list []) >>= PyObject.iterate with
      | .error e => [.stop e]
      | .ok (items, raises) => aliasSteps host loaded raises items

/-- What a file does to the table of plugins. -/
def PluginScript.steps (directory : String) (generation : Nat) (file : PluginScript) :
    List PluginAttempt :=
  match file.bytes with
  | .error e => [.stop e]
  | .ok bytes =>
    if !file.spec then
      [.stop { kind := "ImportError", message := "cannot load " ++ file.path directory }]
    else
      match file.execModule (file.moduleName host generation bytes) with
      | ⟨_, some e⟩ => [.stop e]
      | ⟨registrations, none⟩ =>
        registrations.flatMap
          (Registration.steps host (host.sha256 bytes) generation (file.path directory))

/-- The name of a plugin with its aliases. -/
def Registration.names (registration : Registration) : List PyKey :=
  .str registration.name ::
    match registration.build host >>= fun instance' => instance'.getattr "aliases" (.list []) >>=
      PyObject.iterate with
    | .error _ => []
    | .ok (items, _) => items.filterMap PyObject.key

/-- The names and aliases of all plugins that a file registers. -/
def PluginScript.names (generation : Nat) (file : PluginScript) : List PyKey :=
  match file.bytes with
  | .error _ => []
  | .ok bytes => (file.execModule (file.moduleName host generation bytes)).registrations.flatMap
      (Registration.names host)

def PluginDirectory.sources (directory : String) (generation : Nat) (files : List PluginScript) :
    List (String × List PluginAttempt) :=
  files.map (fun file => (file.path directory, file.steps host directory generation))

end Steps

variable {host : PluginHost} {loaded : PluginEntry} {raises : Option PluginError}
  {candidates : Candidates}
  {digest directory : String} {generation : Nat} {path : String} {taken : List PyKey}

theorem enterAliases_eq (items : List PyObject) (candidates : Candidates) :
    enterAliases host loaded raises items candidates = advance candidates
    (aliasSteps host loaded raises items) := by
  induction items generalizing candidates with
  | nil => cases raises <;> rfl
  | cons other rest ih =>
    rw [enterAliases, aliasSteps]
    cases other.hash with
    | error e => rfl
    | ok key =>
      by_cases held : key ∈ candidates.map Prod.fst
      · exact (if_pos held).trans (advance_clash held ..).symm
      · rw [advance_enter held, ← ih]
        exact if_neg held

theorem enterPlugins_eq (registrations : List Registration) (candidates : Candidates) :
    enterPlugins host digest generation path registrations candidates =
      advance candidates (registrations.flatMap (Registration.steps host digest generation path)) := by
  induction registrations generalizing candidates with
  | nil => rfl
  | cons registration rest ih =>
    rw [enterPlugins, List.flatMap_cons, Registration.steps]
    by_cases held : PyKey.str registration.name ∈ candidates.map Prod.fst
    · rw [if_pos held]
      cases registration.build host with
      | error e => exact (advance_clash held ..).symm
      | ok instance' => exact (advance_clash held ..).symm
    · rw [if_neg held]
      cases registration.build host with
      | error e => exact (advance_fault held ..).symm
      | ok instance' =>
        dsimp only
        rw [List.cons_append, advance_enter held]
        cases instance'.getattr "aliases" (.list []) >>= PyObject.iterate with
        | error e => rfl
        | ok found =>
          dsimp only
          rw [advance_append, enterAliases_eq]
          split
          · rename_i reached fault same
            rw [same]
          · rename_i reached same
            rw [same]
            exact ih reached

theorem loadFile_eq (file : PluginScript) (candidates : Candidates) :
    loadFile host directory generation file candidates = advance candidates
    (file.steps host directory generation) := by
  rw [loadFile, PluginScript.steps]
  cases file.bytes with
  | error e => rfl
  | ok bytes =>
    dsimp only
    cases file.spec with
    | false => rfl
    | true =>
      obtain ⟨registrations, raises⟩ := file.execModule (file.moduleName host generation bytes)
      cases raises with
      | some e => rfl
      | none => exact enterPlugins_eq registrations candidates

/-- A load that returns has filled the table and noted the faults. -/
theorem loadFiles_ok {files : List PluginScript} {diagnostics diagnostics' : List (String × String)}
    {reached : Candidates}
    (ran : loadFiles host directory generation files candidates diagnostics = .ok
      (reached, diagnostics')) :
    reached = (fill candidates (PluginDirectory.sources host directory generation files)).1 ∧
      diagnostics' = diagnostics ++
      (fill candidates (PluginDirectory.sources host directory generation files)).2.map
        (fun fault => (fault.1, fault.2.text)) := by
  induction files generalizing candidates diagnostics with
  | nil =>
    cases ran
    exact ⟨rfl, (List.append_nil _).symm⟩
  | cons file rest ih =>
    rw [loadFiles, loadFile_eq] at ran
    rw [PluginDirectory.sources, List.map_cons, fill]
    generalize advance candidates (file.steps host directory generation) = result at ran ⊢
    obtain ⟨next, fault⟩ := result
    cases fault with
    | none => exact ih ran
    | some e =>
      dsimp only at ran
      split at ran
      · obtain ⟨same, noted⟩ := ih ran
        exact ⟨same, by simpa [PluginDirectory.sources] using noted⟩
      · cases ran

theorem aliasSteps_keys (items : List PyObject)
    (passes : Passing taken (aliasSteps host loaded raises items)) :
    keys (aliasSteps host loaded raises items) = items.filterMap PyObject.key := by
  induction items generalizing taken with
  | nil => cases raises <;> rfl
  | cons other rest ih =>
    rw [aliasSteps] at passes ⊢
    cases found : other.key with
    | none =>
      simp only [PyObject.hash, found] at passes
      cases passes
    | some key =>
      simp only [PyObject.hash, found] at passes ⊢
      cases passes with
      | enter _ _ _ _ _ _ passes => rw [keys, ih passes, List.filterMap_cons_some found]

theorem Registration.steps_keys (registration : Registration)
    (passes : Passing taken (registration.steps host digest generation path)) :
    keys (registration.steps host digest generation path) = registration.names host := by
  rw [Registration.steps] at passes ⊢
  rw [Registration.names]
  cases built : registration.build host with
  | error e =>
    rw [built] at passes
    cases passes
  | ok instance' =>
    simp only [built] at passes
    cases passes with
    | enter _ _ _ _ _ _ passes =>
      show keys (_ :: _) = _ :: (match instance'.getattr "aliases" (.list []) >>= PyObject.iterate with
        | .error _ => [] | .ok (items, _) => items.filterMap PyObject.key)
      cases found : instance'.getattr "aliases" (.list []) >>= PyObject.iterate with
      | error e =>
        rw [found] at passes
        cases passes
      | ok items =>
        rw [found] at passes
        exact congrArg _ (aliasSteps_keys items.1 passes)

/-- A file is either not executed to its end or does what its registrations do. -/
theorem PluginScript.steps_cases (file : PluginScript) :
    (∃ e, file.steps host directory generation = [.stop e]) ∨
      ∃ (digest : String) (registrations : List Registration),
        file.names host generation = registrations.flatMap (Registration.names host) ∧
        file.steps host directory generation =
          registrations.flatMap (Registration.steps host digest generation (file.path directory)) := by
  rw [PluginScript.steps, PluginScript.names]
  cases file.bytes with
  | error e => exact .inl ⟨e, rfl⟩
  | ok bytes =>
    dsimp only
    cases file.spec with
    | false => exact .inl ⟨_, rfl⟩
    | true =>
      obtain ⟨registrations, raises⟩ := file.execModule (file.moduleName host generation bytes)
      cases raises with
      | some e => exact .inl ⟨e, rfl⟩
      | none => exact .inr ⟨_, registrations, rfl, rfl⟩

/-- A file that loads enters all of its names and aliases. -/
theorem PluginScript.steps_keys (file : PluginScript)
    (passes : Passing taken (file.steps host directory generation)) :
    keys (file.steps host directory generation) = file.names host generation := by
  rcases @PluginScript.steps_cases host directory generation file with
    ⟨e, stops⟩ | ⟨digest, registrations, named, stepped⟩
  · rw [stops] at passes
    cases passes
  · rw [stepped] at passes ⊢
    rw [named]
    clear named stepped
    induction registrations generalizing taken with
    | nil => rfl
    | cons registration rest ih =>
      rw [List.flatMap_cons] at passes
      obtain ⟨first, others⟩ := passes.split
      rw [List.flatMap_cons, keys_append, registration.steps_keys first, ih others, List.flatMap_cons]

/-! ## Owners -/

theorem aliasSteps_owner (items : List PyObject) {entry : PyKey × PluginEntry}
    (member : entry ∈ entries (aliasSteps host loaded raises items)) : entry.2 = loaded := by
  induction items with
  | nil => cases raises <;> cases member
  | cons other rest ih =>
    rw [aliasSteps] at member
    cases hashed : other.hash with
    | error e =>
      rw [hashed] at member
      cases member
    | ok key =>
      rw [hashed] at member
      cases member with
      | head => rfl
      | tail _ later => exact ih later

theorem Registration.steps_owner (registration : Registration) {entry : PyKey × PluginEntry}
    (member : entry ∈ entries (registration.steps host digest generation path)) :
    entry.2.path = path := by
  rw [Registration.steps] at member
  cases built : registration.build host with
  | error e =>
    rw [built] at member
    cases member
  | ok instance' =>
    simp only [built] at member
    cases member with
    | head => rfl
    | tail _ later =>
      cases found : instance'.getattr "aliases" (.list []) >>= PyObject.iterate with
      | error e =>
        rw [found] at later
        cases later
      | ok items =>
        rw [found] at later
        exact congrArg PluginEntry.path (aliasSteps_owner items.1 later)

theorem PluginScript.steps_owner (file : PluginScript) {entry : PyKey × PluginEntry}
    (member : entry ∈ entries (file.steps host directory generation)) :
    entry.2.path = file.path directory := by
  rcases @PluginScript.steps_cases host directory generation file with
    ⟨e, stops⟩ | ⟨digest, registrations, _, stepped⟩
  · rw [stops] at member
    cases member
  · rw [stepped, List.flatMap, entries_flatten] at member
    obtain ⟨part, isPart, inside⟩ := List.mem_flatMap.mp member
    obtain ⟨registration, _, rfl⟩ := List.mem_map.mp isPart
    exact registration.steps_owner inside

theorem sources_signed (files : List PluginScript) :
    Signed PluginEntry.path (PluginDirectory.sources host directory generation files) := by
  intro source member entry entered
  obtain ⟨file, _, rfl⟩ := List.mem_map.mp member
  exact file.steps_owner entered

theorem PluginScript.path_injective {file other : PluginScript}
    (same : file.path directory = other.path directory) :
    file.name = other.name := by
  have texts := congrArg String.toList same
  simp only [PluginScript.path, String.toList_append] at texts
  exact String.toList_inj.mp (List.append_cancel_left texts)

/-- No two files have one path. -/
theorem PluginDirectory.sources_distinct (plugins : PluginDirectory) :
    ((PluginDirectory.sources host directory generation plugins.files).map Prod.fst).Nodup := by
  rw [PluginDirectory.sources, List.map_map]
  refine List.Pairwise.map _ ?_ (List.pairwise_map.mp plugins.ordered)
  intro file other before same
  exact (ne_of_lt before) (file.path_injective same)

/-! ## The registry -/

/-- The directory without one of its files. -/
def PluginDirectory.without (plugins : PluginDirectory) (name : String) : PluginDirectory where
  files := plugins.files.filter (fun file => file.name ≠ name)
  ordered := plugins.ordered.sublist (List.filter_sublist.map _)

namespace PluginRegistry
variable (registry loaded : PluginRegistry)

/-- What a file does to the table of the next generation. -/
def steps (host : PluginHost) (file : PluginScript) : List PluginAttempt :=
  file.steps host registry.directory (registry.generation + 1)

def sources (host : PluginHost) (plugins : PluginDirectory) : List (String × List PluginAttempt) :=
  plugins.files.map (fun file => (file.path registry.directory, registry.steps host file))

/-- A file that could not be loaded. -/
def Diagnosed (file : PluginScript) : Prop :=
  (registry.diagnostics.lookup (file.path registry.directory)).isSome

/-- The registry holds the name for the file. -/
def Holds (file : PluginScript) (name : PyKey) : Prop :=
  ∃ plugin, registry.plugins.lookup name = some plugin ∧ plugin.path = file.path registry.directory

/-- After a load every file has contributed nothing or everything, and whether it loads does not
hang on a file that failed. -/
structure LoadsWhole (host : PluginHost) (plugins : PluginDirectory) : Prop where
  failed : ∀ file ∈ plugins.files, loaded.Diagnosed file → ∀ name, ¬ loaded.Holds file name
  complete : ∀ file ∈ plugins.files, ¬ loaded.Diagnosed file →
    ∀ name, loaded.Holds file name ↔ name ∈ file.names host (registry.generation + 1)
  independent : ∀ bad ∈ plugins.files, loaded.Diagnosed bad →
    ∀ other, registry.load host (plugins.without bad.name) = .ok other →
      ∀ file ∈ (plugins.without bad.name).files, other.Diagnosed file ↔ loaded.Diagnosed file

/-- No file fails after its first name was entered. If no file can enter a name, the registry held
none of the files. -/
structure EachWhole (host : PluginHost) (plugins : PluginDirectory) : Prop where
  whole : Whole [] (registry.sources host plugins)
  replaced : (∃ file ∈ plugins.files, registry.steps host file ≠ [] ∧
      ¬ Idle [] (registry.steps host file)) ∨
    ∀ file ∈ plugins.files, ∀ name, ¬ registry.Holds file name

end PluginRegistry

variable {registry loaded : PluginRegistry} {plugins : PluginDirectory}

/-- What a load that returns leaves. -/
structure Reloaded (host : PluginHost) (registry loaded : PluginRegistry)
    (filled : Candidates × List (String × PluginError)) :
    Prop where
  directory : loaded.directory = registry.directory
  diagnostics : loaded.diagnostics = filled.2.map (fun fault => (fault.1, fault.2.text))
  plugins : loaded.plugins = if filled.1 ≠ [] ∨ registry.plugins = [] then filled.1
    else registry.plugins

theorem load_ok (ran : registry.load host plugins = .ok loaded) :
    Reloaded host registry loaded
      (fill [] (registry.sources host plugins)) := by
  rw [PluginRegistry.load] at ran
  cases filed : loadFiles host registry.directory (registry.generation + 1) plugins.files [] [] with
  | error e =>
    simp only [filed] at ran
    cases ran
  | ok reached =>
    have noted : reached.1 = (fill [] (registry.sources host plugins)).1 ∧
        reached.2 = (fill [] (registry.sources host plugins)).2.map
          (fun fault => (fault.1, fault.2.text)) :=
      loadFiles_ok filed
    simp only [filed, bind, Except.bind] at ran
    split at ran
    · rename_i replaces
      cases ran
      exact ⟨rfl, noted.2, by rw [← noted.1, if_pos replaces]⟩
    · rename_i remains
      cases ran
      exact ⟨rfl, noted.2, by rw [← noted.1, if_neg remains]⟩

section Reloaded
variable {filled : Candidates × List (String × PluginError)}

theorem Reloaded.diagnosed_iff (facts : Reloaded host registry loaded filled) (file : PluginScript) :
    loaded.Diagnosed file ↔ file.path registry.directory ∈ filled.2.map Prod.fst := by
  rw [PluginRegistry.Diagnosed, facts.directory, facts.diagnostics, List.lookup_isSome_iff]
  constructor
  · rintro ⟨_, member, same⟩
    obtain ⟨fault, noted, rfl⟩ := List.mem_map.mp member
    exact List.mem_map.mpr ⟨fault, noted, (beq_iff_eq.mp same).symm⟩
  · intro member
    obtain ⟨fault, noted, same⟩ := List.mem_map.mp member
    exact ⟨_, List.mem_map_of_mem noted, beq_iff_eq.mpr same.symm⟩

theorem Reloaded.holds_iff (facts : Reloaded host registry loaded filled)
    (unique : (filled.1.map Prod.fst).Nodup)
    (replaces : filled.1 ≠ [] ∨ registry.plugins = []) (file : PluginScript) (name : PyKey) :
    loaded.Holds file name ↔ ∃ plugin, (name, plugin) ∈ filled.1 ∧
      plugin.path = file.path registry.directory := by
  rw [PluginRegistry.Holds, facts.directory, facts.plugins, if_pos replaces]
  simp only [Lookup.iff_mem unique]

theorem Reloaded.holds_kept (facts : Reloaded host registry loaded filled)
    (remains : ¬ (filled.1 ≠ [] ∨ registry.plugins = [])) (file : PluginScript) (name : PyKey) :
    loaded.Holds file name ↔ registry.Holds file name := by
  rw [PluginRegistry.Holds, facts.directory, facts.plugins, if_neg remains, PluginRegistry.Holds]

end Reloaded

/-- Of a directory whose files each load whole or not at all, a file that failed can be missing. -/
theorem loads_independent (ran : registry.load host plugins = .ok loaded)
    (whole : Whole [] (registry.sources host plugins))
    {bad : PluginScript} (faulty : loaded.Diagnosed bad) {other : PluginRegistry}
    (ranOther : registry.load host (plugins.without bad.name) = .ok other) {file : PluginScript}
    (member : file ∈ (plugins.without bad.name).files) :
    other.Diagnosed file ↔ loaded.Diagnosed file := by
  have facts := load_ok ran
  have left : registry.sources host (plugins.without bad.name) =
      (registry.sources host plugins).filter
        (fun source => source.1 ≠ bad.path registry.directory) := by
    rw [PluginRegistry.sources, PluginRegistry.sources, List.filter_map]
    refine congrArg _ (List.filter_congr
      (fun file _ => decide_eq_decide.mpr (not_congr ⟨fun same => ?_, file.path_injective⟩)))
    exact congrArg (registry.directory ++ "/" ++ ·) same
  have dropped : fill []
    ((registry.sources host plugins).filter (fun source => source.1 ≠ bad.path registry.directory)) =
      ((fill [] (registry.sources host plugins)).1,
        (fill [] (registry.sources host plugins)).2.filter
          (fun fault => fault.1 ≠ bad.path registry.directory)) :=
    fill_without plugins.sources_distinct whole ((facts.diagnosed_iff bad).mp faulty)
  have facts' := load_ok ranOther
  rw [left, dropped] at facts'
  have apart : file.path registry.directory ≠ bad.path registry.directory := fun same =>
    of_decide_eq_true (List.mem_filter.mp member).2 (file.path_injective same)
  rw [facts'.diagnosed_iff, facts.diagnosed_iff, List.mem_map, List.mem_map]
  constructor
  · rintro ⟨fault, noted, same⟩
    exact ⟨fault, List.mem_of_mem_filter noted, same⟩
  · rintro ⟨fault, noted, same⟩
    exact ⟨fault, List.mem_filter.mpr ⟨noted, decide_eq_true (same ▸ apart)⟩, same⟩

/-- A table that was filled holds whole files exactly if no file fails after its first name. -/
theorem holds_whole_iff (ran : registry.load host plugins = .ok loaded)
    (replaces : (fill [] (registry.sources host plugins)).1 ≠ [] ∨
      registry.plugins = []) :
    (∀ file ∈ plugins.files, (loaded.Diagnosed file → ∀ name, ¬ loaded.Holds file name) ∧
      (¬ loaded.Diagnosed file → ∀ name, loaded.Holds file name ↔
        name ∈ file.names host (registry.generation + 1))) ↔
    Whole [] (registry.sources host plugins) := by
  have facts := load_ok ran
  have unique := @fill_nodup _ _ PluginError _ _ [] List.nodup_nil (registry.sources host plugins)
  have atomic : Atomic PluginEntry.path (registry.sources host plugins)
    (fill [] (registry.sources host plugins)).1
      (fill [] (registry.sources host plugins)).2 ↔ Whole [] (registry.sources host plugins) :=
    fill_atomic_iff (sources_signed plugins.files) plugins.sources_distinct
      (fun _ member => nomatch member)
  rw [← atomic, Atomic, PluginRegistry.sources, List.forall_mem_map]
  refine forall₂_congr (fun file member => ?_)
  rw [facts.diagnosed_iff]
  refine and_congr (forall_congr' (fun _ => ?_)) ?_
  · simp only [facts.holds_iff unique replaces]
    constructor
    · intro free entry entered mine
      exact free entry.1 ⟨entry.2, entered, mine⟩
    · rintro free name ⟨plugin, entered, mine⟩
      exact free (name, plugin) entered mine
  · refine forall_congr' (fun clean => ?_)
    obtain ⟨taken, passes⟩ := fill_passing (List.mem_map_of_mem member) clean
    have named : keys (registry.steps host file) = file.names host (registry.generation + 1) :=
      file.steps_keys passes
    simp only [facts.holds_iff unique replaces, named]
    rfl

/-- A load keeps every file whole exactly if no file fails after its first name was entered. -/
theorem plugin_loading_atomic_iff (ran : registry.load host plugins = .ok loaded) :
    registry.LoadsWhole loaded host plugins ↔ registry.EachWhole host plugins := by
  have facts := load_ok ran
  have entered : (fill [] (registry.sources host plugins)).1 ≠ [] ↔
      ∃ file ∈ plugins.files, registry.steps host file ≠ [] ∧ ¬ Idle [] (registry.steps host file) := by
    rw [fill_entered_iff]
    constructor
    · rintro ⟨source, member, active⟩
      obtain ⟨file, isFile, rfl⟩ := List.mem_map.mp member
      exact ⟨file, isFile, active⟩
    · rintro ⟨file, isFile, active⟩
      exact ⟨_, List.mem_map_of_mem isFile, active⟩
  by_cases replaces : (fill [] (registry.sources host plugins)).1 ≠
      [] ∨ registry.plugins = []
  · have parts := holds_whole_iff ran replaces
    constructor
    · intro loads
      refine ⟨parts.mp (fun file member => ⟨loads.failed file member, loads.complete file member⟩), ?_⟩
      rcases replaces with filled | empty
      · exact .inl (entered.mp filled)
      · refine .inr (fun file _ name held => ?_)
        obtain ⟨plugin, found, _⟩ := held
        rw [empty] at found
        cases found
    · intro each
      exact ⟨fun file member => (parts.mpr each.whole file member).1, fun file member =>
        (parts.mpr each.whole file member).2,
        fun bad _ faulty other ranOther file member =>
          loads_independent ran each.whole faulty ranOther member⟩
  · have idle (file : PluginScript) (member : file ∈ plugins.files) :
        registry.steps host file = [] ∨ Idle [] (registry.steps host file) := by
      by_contra neither
      exact replaces (.inl (entered.mpr ⟨file, member, not_or.mp neither⟩))
    have whole : Whole [] (registry.sources host plugins) := by
      refine whole_of_idle (fun source member => ?_)
      obtain ⟨file, isFile, rfl⟩ := List.mem_map.mp member
      exact idle file isFile
    have nameless (file : PluginScript) (member : file ∈ plugins.files)
      (clean : ¬ loaded.Diagnosed file) :
        file.names host (registry.generation + 1) = [] := by
      rw [facts.diagnosed_iff] at clean
      obtain ⟨taken, passes⟩ := @fill_passing _ _ _ _ _ [] (registry.sources host plugins) _
        (List.mem_map_of_mem member) clean
      rw [← file.steps_keys passes]
      rcases idle file member with empty | idles
      · exact congrArg keys empty
      · exact absurd (Passing.mono (List.nil_subset _) passes) idles.not_passing
    constructor
    · intro loads
      refine ⟨whole, .inr (fun file member name held => ?_)⟩
      have kept := (facts.holds_kept replaces file name).mpr held
      by_cases faulty : loaded.Diagnosed file
      · exact loads.failed file member faulty name kept
      · have named := (loads.complete file member faulty name).mp kept
        rw [nameless file member faulty] at named
        cases named
    · intro each
      have free (file : PluginScript) (member : file ∈ plugins.files)
        (name : PyKey) : ¬ loaded.Holds file name := by
        rw [facts.holds_kept replaces]
        exact each.replaced.resolve_left
          (fun active => replaces (.inl (entered.mpr active))) file member name
      refine ⟨fun file member _ => free file member, fun file member clean name => ?_,
        fun bad _ faulty other ranOther file member =>
          loads_independent ran whole faulty ranOther member⟩
      rw [nameless file member clean]
      exact iff_of_false (free file member name) List.not_mem_nil

/-! ## Two directories -/

def demoSource : String :=
  "from localflow.plugins import plugin\n@plugin('demo')\nclass Demo:\n aliases=['d']\n fields=[]\n " ++
    "def expand(self, values, context): return []\n"

def brokenSource : String := "raise RuntimeError('boom')\n"

/-- A second class without `expand` after a first that is a plugin. -/
def halfSource : String := demoSource ++ "@plugin('half')\nclass Half:\n fields=[]\n"

def plainPluginHost : PluginHost where
  sha256 bytes :=
    match bytes.length with
    | 137 => "e70e4d9001cf5d721b913169ecd6de4d4b508527c2e46bf52273e644307668fd"
    | 0 => "e3b0c44298fc1c149afbf4c8996fb92427ae41e4649b934ca495991b7852b855"
    | 27 => "e5328c1832bd9d4906fccfa74073025e872b55f58de4ce2ce9733e16ccd38896"
    | _ => "44d03be43b7fb63ee8976be9d29499c589f7935fd1d1dbec25693e86f765dce4"
  invalidField _ := ""
  modelFields _ := []
  modelValidate _ _ := none
  text value := value.str?.getD ""
  sorted _ := .ok ""

def plainObject (attributes : List (String × PyObject)) : Instance :=
  ⟨fun name => .ok (attributes.lookup name), none⟩

def demoPlugin : Registration :=
  ⟨"demo", "1", .ok (plainObject [("fields", .list []), ("expand", .object 1 true),
    ("aliases", .list [.str "d"])])⟩

def PluginScript.plain (name source : String) (module : Module) : PluginScript :=
  ⟨name, .ok (source.toList.map (fun c => UInt8.ofNat c.toNat)), true, fun _ => module⟩

def demoScript : PluginScript := .plain "demo.py" demoSource ⟨[demoPlugin], none⟩

def brokenScript : PluginScript :=
  .plain "broken.py" brokenSource ⟨[], some { kind := "RuntimeError", message := "boom" }⟩

def plainRegistry : PluginRegistry := ⟨"/srv/plugins", 0, [], []⟩

/-- A file that raises on import beside one that loads. -/
theorem plugin_loading_atomic_broken : ∃ loaded,
    plainRegistry.load plainPluginHost ⟨[brokenScript, demoScript], by decide⟩ = .ok loaded ∧
      plainRegistry.LoadsWhole loaded plainPluginHost ⟨[brokenScript, demoScript], by decide⟩ := by
  refine ⟨_, rfl, (plugin_loading_atomic_iff rfl).mpr ⟨?_, ?_⟩⟩
  · exact .idle _ _ _ _ (.stop _ _) (.passing _ _ _ _ (.enter _ _ _ _ _ (by decide)
      (.enter _ _ _ _ _ (by decide) (.nil _))) (.nil _))
  · exact .inr (fun _ _ _ held => by obtain ⟨_, found, _⟩ := held; cases found)

def halfScript : PluginScript :=
  .plain "a.py" halfSource ⟨[demoPlugin, ⟨"half", "1", .ok (plainObject [("fields", .list [])])⟩], none⟩

/-- The first class of a file whose second one is no plugin stays, and the name is then taken for
the other file that has it. A third file loads. -/
theorem plugin_loading_leaks :
    ¬ ∀ (host : PluginHost) (registry loaded : PluginRegistry) (plugins : PluginDirectory),
    registry.load host plugins = .ok loaded → (∃ file ∈ plugins.files, ¬ loaded.Diagnosed file) →
      registry.LoadsWhole loaded host plugins := by
  intro whole
  have loads := whole plainPluginHost plainRegistry _
    ⟨[halfScript, demoScript, .plain "empty.py" "" ⟨[], none⟩], by decide⟩
    rfl ⟨_, .tail _ (.tail _ (.head _)), by simp [PluginRegistry.Diagnosed]; decide⟩
  exact loads.failed halfScript (.head _) rfl (.str "demo") ⟨_, rfl, rfl⟩

end LocalFlow
