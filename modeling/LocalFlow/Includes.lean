import LocalFlow.ConfigFiles

/-! What parsing a configuration can reach: the files named by its include directives, and whether
they stay in the configuration directory. -/
namespace LocalFlow
open Paths DepthFirst

/-- The files that the include directives of a file name, directly or through other files. -/
inductive NamedFile (disk : Volume) (path : Path) : Path → Prop where
  | self : NamedFile disk path path
  | names (file included : Path) (text raw : String) (named : NamedFile disk path file)
      (reads : disk.readText file = .ok text) (directive : (file, raw) ∈ directives file text)
      (leads : disk.included file (unquoted raw) = .ok included) : NamedFile disk path included

def Inside (base path : Path) : Prop := configDirectory base <+: path

instance (base path : Path) : Decidable (Inside base path) := inferInstanceAs (Decidable (_ <+: _))

/-- No symbolic link lies in the configuration directory. -/
def Linkless (base : Path) (disk : Volume) : Prop :=
  ∀ components, Plain components →
    disk.resolve (configDirectory base ++ components) = .ok (configDirectory base ++ components)

/-- Disks with the same configuration directory. -/
structure SameDirectory (base : Path) (disk disk' : Volume) : Prop where
  resolve : disk'.resolve = disk.resolve
  node : ∀ path, Inside base path → disk'.node path = disk.node path

/-- The loader reads only the files that the directives name. -/
def ReadsNamed {α : Type*} (load : Volume → Path → Except Raised α) : Prop :=
  ∀ (disk disk' : Volume) (path : Path), disk'.resolve = disk.resolve →
    (∀ file, NamedFile disk path file → disk'.node file = disk.node file) →
      load disk' path = load disk path

/-- `mkstemp` never gives a name that is taken. -/
def Fresh (base : Path) (disk : Volume) (relative : String) (scratch : Option String) : Prop :=
  ∀ path random, ConfigRepository.resolve base disk relative = .ok path → scratch = some random →
    disk.node (temporary path random) = .missing

/-- A file is read by `parse` itself or handed to the loader. -/
def Parsed.Touches {α : Type*} (parsed : Parsed α) (file : Path) : Prop :=
  file ∈ parsed.reads ∨ ∃ disk path, parsed.loads = some (disk, path) ∧ NamedFile disk path file

section Containment
variable {α : Type*} (load : Volume → Path → Except Raised α) (limit : Nat)
  (scratch : Option String) (base : Path)
variable (disk : Volume) (relative : String) (content : Option String)

/-- Nothing outside the directory is touched, and a directive that leads out of it makes `parse`
fail. -/
structure Contained : Prop where
  inside : ∀ file, (ConfigRepository.parse load limit scratch base disk relative content).Touches
    file → Inside base file
  fails : ∀ path, ConfigRepository.resolve base disk relative = .ok path →
    ∀ file, NamedFile (content.elim disk (disk.put path)) path file → ¬ Inside base file →
      ∃ e, (ConfigRepository.parse load limit scratch base disk relative content).result = .error e

/-- The check as it starts on a file. -/
def checkStart (path : Path) (source : String) : State (Path × String) Path :=
  start limit (directives path source)

/-- The directive that is checked next leads to no supported path outside the directory. -/
def HeadInside (base : Path) (disk : Volume) (s : State (Path × String) Path) : Prop :=
  ∀ n directive rest included, s.agenda = (n, directive) :: rest →
    disk.included directive.1 (unquoted directive.2) = .ok included → isSupported included = true →
      Inside base included

/-- In the order in which the directives are checked, none leads to a supported path outside the
directory before one fails the check. And where they all pass and name the very file that is parsed
from a content, the stored file of that name leads nowhere outside either. -/
structure Confined : Prop where
  heads : ∀ path source, ConfigRepository.resolve base disk relative = .ok path →
    content.elim (disk.readText path) .ok = .ok source →
      ∀ s, Reaches disk.checkedGraph path (checkStart limit path source) s → HeadInside base disk s
  stored : ∀ path source met, ConfigRepository.resolve base disk relative = .ok path →
    content = some source →
    scratch.isSome = true →
      Reaches disk.checkedGraph path (checkStart limit path source) ⟨met, []⟩ → path ∈ met →
      ∀ file, NamedFile disk path file → Inside base file

end Containment

section Files
variable {base path file : Path} {disk disk' : Volume} {relative : String}

theorem inside_resolve (linkless : Linkless base disk)
    (ok : ConfigRepository.resolve base disk relative = .ok path) :
    ConfigRepository.path base relative = .ok path ∧ Inside base path ∧ isSupported path = true := by
  obtain ⟨logical, isPath, _, _, rfl⟩ := resolve_ok ok
  obtain ⟨components, plain, _, rfl, supported⟩ := path_ok isPath
  rw [(volume_resolve_iff.mp (linkless components plain)).2]
  exact ⟨isPath, List.prefix_append _ _, supported⟩

theorem inside_temporary (linkless : Linkless base disk)
    (ok : ConfigRepository.resolve base disk relative = .ok path)
    (random : String) : Inside base (temporary path random) := by
  obtain ⟨logical, isPath, _, _, rfl⟩ := resolve_ok ok
  obtain ⟨components, plain, some_components, rfl, _⟩ := path_ok isPath
  rw [(volume_resolve_iff.mp (linkless components plain)).2]
  refine ⟨components.dropLast ++ [temporaryName (configDirectory base ++ components) random], ?_⟩
  unfold temporary parent
  rw [List.dropLast_append_of_ne_nil some_components, List.append_assoc]

end Files

/-! ## The check -/

section Check
variable {base path : Path} {disk disk' : Volume} {source : String} {limit : Nat}
  {directive : Path × String} {node : Path}
variable {s : State (Path × String) Path} {met : List Path} {fault : Option Raised}

theorem checkedTarget_ok (ok : disk.checkedTarget directive = .ok node) :
    disk.included directive.1 (unquoted directive.2) = .ok node ∧ isSupported node = true ∧
      ∃ bytes, disk.node node = .file bytes := by
  unfold Volume.checkedTarget at ok
  dsimp only at ok
  split at ok
  · cases ok
  · rename_i included leads
    split at ok
    · cases ok
    · rename_i supported
      split at ok
      · rename_i bytes isFile
        cases ok
        exact ⟨leads, not_not.mp supported, bytes, isFile⟩
      · cases ok
      · cases ok

@[simp] theorem checkedGraph_target :
    disk.checkedGraph.target directive = disk.checkedTarget directive := rfl

@[simp] theorem checkedGraph_edges :
    disk.checkedGraph.edges path = (disk.readText path).map (directives path) := rfl

theorem checkedTarget_file {bytes : Option (List UInt8)}
    (leads : disk.included directive.1 (unquoted directive.2) = .ok node)
    (supported : isSupported node = true) (isFile : disk.node node = .file bytes) :
    disk.checkedTarget directive = .ok node := by
  unfold Volume.checkedTarget
  dsimp only
  rw [leads]
  dsimp only
  rw [if_neg (not_not.mpr supported), isFile]

theorem SameDirectory.included (agrees : SameDirectory base disk disk') :
    disk'.included = disk.included := by
  unfold Volume.included
  rw [agrees.resolve]

theorem SameDirectory.target (agrees : SameDirectory base disk disk')
    (inside : ∀ included, disk.included directive.1 (unquoted directive.2) = .ok included →
      isSupported included = true →
      Inside base included) : disk'.checkedTarget directive = disk.checkedTarget directive := by
  unfold Volume.checkedTarget
  dsimp only
  rw [agrees.included]
  cases leads : disk.included directive.1 (unquoted directive.2) with
  | error e => rfl
  | ok included =>
    dsimp only
    by_cases supported : isSupported included = true
    · rw [if_neg (not_not.mpr supported), if_neg (not_not.mpr supported),
        agrees.node included (inside included leads supported)]
    · rw [if_pos supported, if_pos supported]

theorem SameDirectory.readText (agrees : SameDirectory base disk disk')
    (inside : Inside base path) : disk'.readText path = disk.readText path :=
  readText_node (agrees.node path inside)

theorem HeadInside.leads (head : HeadInside base disk s) : Leads disk.checkedGraph (Inside base) s := by
  intro n directive rest node isHead target
  rw [checkedGraph_target] at target
  obtain ⟨leads, supported, _⟩ := checkedTarget_ok target
  exact head n directive rest node isHead leads supported

/-- Disks with the same directory are checked alike as long as no directive leads out of it. -/
theorem SameDirectory.next (agrees : SameDirectory base disk disk') (head : HeadInside base disk s) :
    next disk'.checkedGraph path s = next disk.checkedGraph path s := by
  obtain ⟨met, agenda⟩ := s
  cases agenda with
  | nil => rfl
  | cons first rest =>
    obtain ⟨n, directive⟩ := first
    have target : disk'.checkedTarget directive = disk.checkedTarget directive :=
      agrees.target (fun included leads supported => head n directive rest included rfl leads supported)
    unfold DepthFirst.next
    dsimp only
    rw [checkedGraph_target, checkedGraph_target, target]
    cases found : disk.checkedTarget directive with
    | error e => rfl
    | ok node =>
      have inside := head.leads n directive rest node rfl found
      dsimp only
      rw [checkedGraph_edges, checkedGraph_edges, agrees.readText inside]
      rfl

variable (heads : ∀ s, Reaches disk.checkedGraph path (checkStart limit path source) s →
  HeadInside base disk s)
include heads

theorem checkIncludes_agrees (agrees : SameDirectory base disk disk') :
    disk'.checkIncludes limit path source = disk.checkIncludes limit path source :=
  search_congr (fun s reaches => agrees.next (heads s reaches))

theorem checkIncludes_inside (checked : disk.checkIncludes limit path source = (met, fault)) :
    ∀ file ∈ met, Inside base file := by
  have halts := search_halts disk.checkedGraph path limit (directives path source)
  have same : search disk.checkedGraph path limit (directives path source) [] = (met, fault) := checked
  rw [same] at halts
  exact halts.met_all (fun _ never => nomatch never) (fun s reaches => (heads s reaches).leads)

end Check

/-! ## What the loader is handed -/

section Loading
variable {base path start file : Path} {disk view : Volume} {source : String} {limit : Nat}
  {met : List Path}

/-- A set of files is closed if the directives of its files lead into it. -/
theorem NamedFile.closed {P : Path → Prop} (first : P start)
    (closed : ∀ file text raw included, P file → view.readText file = .ok text →
      (file, raw) ∈ directives file text →
      view.included file (unquoted raw) = .ok included → P included)
      (named : NamedFile view start file) : P file := by
  induction named with
  | self => exact first
  | names file included text raw _ reads directive leads ih =>
    exact closed file text raw included ih reads directive leads

theorem mem_directives {raw : String} : (file, raw) ∈ directives path source ↔
    isYaml path = true ∧ raw ∈ includeTargets source ∧ file = path := by
  unfold directives
  split
  · rename_i yaml
    rw [List.mem_map]
    constructor
    · rintro ⟨_, member, same⟩
      cases same
      exact ⟨yaml, member, rfl⟩
    · rintro ⟨_, member, rfl⟩
      exact ⟨raw, member, rfl⟩
  · rename_i other
    exact iff_of_false List.not_mem_nil (fun yaml => other yaml.1)

/-- Where the check passes, the directives of what was parsed lead to files that were met. -/
theorem passed_start (passed : disk.checkIncludes limit path source = (met, none)) {raw : String}
    {included : Path}
    (directive : (path, raw) ∈ directives path source)
    (leads : disk.included path (unquoted raw) = .ok included) :
    included ∈ met := by
  obtain ⟨node, member, target⟩ := (search_covers passed).1 _ directive
  rw [checkedGraph_target] at target
  have same := (checkedTarget_ok target).1.symm.trans leads
  cases same
  exact member

/-- And so do those of a file that was met, the parsed one apart. -/
theorem passed_met (passed : disk.checkIncludes limit path source = (met, none))
    (member : file ∈ met) (other : file ≠ path)
    {text raw : String} {included : Path} (reads : disk.readText file = .ok text)
    (directive : (file, raw) ∈ directives file text)
    (leads : disk.included file (unquoted raw) = .ok included) : included ∈ met := by
  obtain ⟨out, opened, covered⟩ := (search_covers passed).2 file member other
  rw [checkedGraph_edges, reads] at opened
  cases opened
  obtain ⟨node, member, target⟩ := covered _ directive
  rw [checkedGraph_target] at target
  have same := (checkedTarget_ok target).1.symm.trans leads
  cases same
  exact member

/-- What the parsed file names, whatever it is stored as, was met. -/
theorem named_parsed (passed : disk.checkIncludes limit path source = (met, none)) {text : String}
    (resolve : view.resolve = disk.resolve) (reads : view.readText path = .ok text)
    (same : includeTargets text = includeTargets source)
    (others : ∀ file, file ≠ path → view.node file = disk.node file)
    (named : NamedFile view path file) : file = path ∨ file ∈ met := by
  have included : view.included = disk.included := by
    unfold Volume.included
    rw [resolve]
  have ofPath : ∀ raw target, (path, raw) ∈ directives path text →
    disk.included path (unquoted raw) = .ok target →
      target ∈ met := by
    intro raw target directive leads
    obtain ⟨yaml, member, _⟩ := mem_directives.mp directive
    exact passed_start passed (mem_directives.mpr ⟨yaml, same ▸ member, rfl⟩) leads
  refine named.closed (P := fun file => file = path ∨ file ∈ met) (.inl rfl) ?_
  intro file content raw target from_file isText directive leads
  rw [included] at leads
  by_cases isPath : file = path
  · subst isPath
    rw [reads] at isText
    cases isText
    exact .inr (ofPath raw target directive leads)
  · have member := from_file.resolve_left isPath
    rw [readText_node (others file isPath)] at isText
    exact .inr (passed_met passed member isPath isText directive leads)

/-- What the temporary file names was met, or is named by the stored file of the parsed name, which
was met then. -/
theorem named_temporary (passed : disk.checkIncludes limit path source = (met, none))
    (supported : isSupported path = true)
    {random : String} (named : NamedFile (disk.put (temporary path random) source)
      (temporary path random) file) :
    file = temporary path random ∨ file ∈ met ∧ file ≠ path ∨ path ∈ met ∧
      NamedFile disk path file := by
  have included : (disk.put (temporary path random) source).included = disk.included := rfl
  have ofMet : ∀ {target}, target ∈ met → target = temporary path random ∨ target ∈ met ∧
    target ≠ path ∨
      path ∈ met ∧ NamedFile disk path target := by
    intro target member
    by_cases isPath : target = path
    · subst isPath
      exact .inr (.inr ⟨member, .self⟩)
    · exact .inr (.inl ⟨member, isPath⟩)
  refine named.closed (P := fun file => file = temporary path random ∨ file ∈ met ∧ file ≠ path ∨
    path ∈ met ∧ NamedFile disk path file) (.inl rfl) ?_
  intro file content raw target from_file isText directive leads
  rw [included] at leads
  by_cases isTemporary : file = temporary path random
  · subst isTemporary
    rw [readText_put] at isText
    cases isText
    obtain ⟨yaml, member, _⟩ := mem_directives.mp directive
    rw [isYaml_temporary supported] at yaml
    rw [includeTargets_newlines] at member
    have same : disk.included (temporary path random) = disk.included path := by
      unfold Volume.included
      rw [parent_temporary]
    rw [same] at leads
    exact ofMet (passed_start passed (mem_directives.mpr ⟨yaml, member, rfl⟩) leads)
  · rw [readText_node (node_put isTemporary)] at isText
    obtain ⟨member, other⟩ | ⟨member, named⟩ := from_file.resolve_left isTemporary
    · exact ofMet (passed_met passed member other isText directive leads)
    · exact .inr (.inr ⟨member, .names file target content raw named isText directive leads⟩)

end Loading

/-! ## Parsing -/

section Parsing
variable {α : Type*} {load : Volume → Path → Except Raised α} {limit : Nat}
  {scratch : Option String} {base : Path}
variable {disk disk' : Volume} {relative : String} {content : Option String} {path file : Path}
  {source : String} {e : Raised}
variable {met : List Path}

/-- What `parse` reads before the check. -/
def ownReads (content : Option String) (path : Path) : List Path :=
  if content.isSome then [] else [path]

theorem parse_unresolved (failed : ConfigRepository.resolve base disk relative = .error e) :
    ConfigRepository.parse load limit scratch base disk relative content = ⟨[], none, .error e⟩ := by
  unfold ConfigRepository.parse
  rw [failed]

variable (resolved : ConfigRepository.resolve base disk relative = .ok path)
include resolved

theorem parse_unread (failed : content.elim (disk.readText path) .ok = .error e) :
    ConfigRepository.parse load limit scratch base disk relative content =
      ⟨ownReads content path, none, .error e⟩ := by
  unfold ConfigRepository.parse
  rw [resolved]
  dsimp only
  rw [failed]
  rfl

theorem parse_failed (isSource : content.elim (disk.readText path) .ok = .ok source)
    (failed : disk.checkIncludes limit path source = (met, some e)) :
    ConfigRepository.parse load limit scratch base disk relative content =
      ⟨ownReads content path ++ met.filter (· ≠ path), none, .error e⟩ := by
  unfold ConfigRepository.parse
  rw [resolved]
  dsimp only
  rw [isSource]
  dsimp only
  rw [failed]
  rfl

theorem parse_passed (isSource : content.elim (disk.readText path) .ok = .ok source)
    (passed : disk.checkIncludes limit path source = (met, none)) :
    ConfigRepository.parse load limit scratch base disk relative content =
      ConfigRepository.loadParsed load scratch disk path content
      (ownReads content path ++ met.filter (· ≠ path)) := by
  unfold ConfigRepository.parse
  rw [resolved]
  dsimp only
  rw [isSource]
  dsimp only
  rw [passed]
  rfl

end Parsing

/-! ## Confined configurations -/

section Confinement
variable {α : Type*} {load : Volume → Path → Except Raised α} {limit : Nat}
  {scratch : Option String} {base : Path}
variable {disk disk' : Volume} {relative : String} {content : Option String} {path file : Path}
  {source : String} {e : Raised}
variable {met reads : List Path}

theorem loadParsed_reads :
    (ConfigRepository.loadParsed load scratch disk path content reads).reads = reads := by
  unfold ConfigRepository.loadParsed
  split
  · rfl
  · split <;> rfl

/-- What the loader is handed. -/
def handed (scratch : Option String) (disk : Volume) (path : Path) :
    Option String → Option (Volume × Path)
  | none => some (disk, path)
  | some content => scratch.map
      (fun random => (disk.put (temporary path random) content, temporary path random))

theorem loadParsed_loads :
    (ConfigRepository.loadParsed load scratch disk path content reads).loads =
      handed scratch disk path content := by
  unfold ConfigRepository.loadParsed handed
  cases content with
  | none => rfl
  | some content => cases scratch <;> rfl

theorem inside_own (inside : Inside base path) : ∀ file ∈ ownReads content path, Inside base file := by
  intro file own
  unfold ownReads at own
  split at own
  · cases own
  · cases List.mem_singleton.mp own
    exact inside

theorem inside_reads (inside : Inside base path) (all : ∀ file ∈ met, Inside base file) :
    ∀ file ∈ ownReads content path ++ met.filter (· ≠ path), Inside base file := by
  intro file member
  obtain own | found := List.mem_append.mp member
  · exact inside_own inside file own
  · exact all file (List.mem_filter.mp found).1

theorem SameDirectory.resolved (agrees : SameDirectory base disk disk') :
    ConfigRepository.resolve base disk' relative = ConfigRepository.resolve base disk relative := by
  unfold ConfigRepository.resolve
  rw [agrees.resolve]

theorem SameDirectory.parsedText (agrees : SameDirectory base disk disk') (inside : Inside base path) :
    content.elim (disk'.readText path) .ok = content.elim (disk.readText path) .ok := by
  rw [agrees.readText inside]

theorem SameDirectory.put (agrees : SameDirectory base disk disk') (written : Path) :
    SameDirectory base (disk.put written source) (disk'.put written source) := by
  refine ⟨agrees.resolve, fun path inside => ?_⟩
  unfold Volume.put
  dsimp only
  split
  · rfl
  · exact agrees.node path inside

/-- The disks on which the files named by a file are inside load it alike. -/
theorem ReadsNamed.agrees (readsNamed : ReadsNamed load) (agrees : SameDirectory base disk disk')
    (inside : ∀ file, NamedFile disk path file → Inside base file) : load disk' path = load disk path :=
  readsNamed disk disk' path agrees.resolve (fun file named => agrees.node file (inside file named))

/-- A configuration that passes the check is handed to the loader with nothing outside the directory
named. -/
theorem loads_inside (linkless : Linkless base disk)
    (confined : Confined limit scratch base disk relative content)
    (resolved : ConfigRepository.resolve base disk relative = .ok path)
    (isSource : content.elim (disk.readText path) .ok = .ok source)
    (passed : disk.checkIncludes limit path source = (met, none)) {seen : Volume} {start : Path}
    (loads : handed scratch disk path content = some (seen, start))
    (named : NamedFile seen start file) : Inside base file := by
  have heads := confined.heads path source resolved isSource
  have all := checkIncludes_inside heads passed
  obtain ⟨_, inside, supported⟩ := inside_resolve linkless resolved
  cases content with
  | none =>
    cases loads
    obtain rfl | member := named_parsed passed rfl isSource rfl (fun _ _ => rfl) named
    · exact inside
    · exact all file member
  | some content =>
    cases isSource
    cases scratch with
    | none => cases loads
    | some random =>
      cases loads
      obtain rfl | ⟨member, _⟩ | ⟨member, stored⟩ := named_temporary passed supported named
      · exact inside_temporary linkless resolved random
      · exact all file member
      · exact confined.stored path source met resolved rfl rfl
          (search_passes.mpr passed) member file stored

/-- A confined configuration is confined on every disk with the same directory. -/
theorem Confined.agrees (linkless : Linkless base disk)
    (confined : Confined limit scratch base disk relative content)
    (agrees : SameDirectory base disk disk') : Confined limit scratch base disk' relative content := by
  have follows : ∀ path source, ConfigRepository.resolve base disk' relative = .ok path →
      content.elim (disk'.readText path) .ok = .ok source →
      ConfigRepository.resolve base disk relative = .ok path ∧
        content.elim (disk.readText path) .ok = .ok source ∧
      ∀ s, Reaches disk'.checkedGraph path (checkStart limit path source) s →
        Reaches disk.checkedGraph path (checkStart limit path source) s := by
    intro path source resolved isSource
    rw [agrees.resolved] at resolved
    rw [agrees.parsedText (inside_resolve linkless resolved).2.1] at isSource
    refine ⟨resolved, isSource, fun s reaches => ?_⟩
    refine reaches.invariant
      (P := Reaches disk.checkedGraph path (checkStart limit path source)) .refl
      (fun u v _ before more => ?_)
    exact before.tail ((agrees.next
      (confined.heads path source resolved isSource u before)).symm.trans more)
  constructor
  · intro path source resolved isSource s reaches
    obtain ⟨resolved, isSource, same⟩ := follows path source resolved isSource
    have head := confined.heads path source resolved isSource s (same s reaches)
    intro n directive rest included isHead leads
    rw [agrees.included] at leads
    exact head n directive rest included isHead leads
  · intro path source met resolved isSource written reaches member file named
    obtain ⟨resolved, _, same⟩ := follows path source resolved (by rw [isSource]; rfl)
    have inside := confined.stored path source met resolved isSource written (same _ reaches) member
    refine inside file (named.closed (P := NamedFile disk path) .self ?_)
    intro file text raw included named reads directive leads
    rw [agrees.readText (inside file named)] at reads
    rw [agrees.included] at leads
    exact .names file included text raw named reads directive leads

/-- A confined configuration touches nothing outside and fails on a directive that leads there. -/
theorem Confined.contained (linkless : Linkless base disk)
    (confined : Confined limit scratch base disk relative content) :
    Contained load limit scratch base disk relative content := by
  cases resolved : ConfigRepository.resolve base disk relative with
  | error e =>
    constructor
    · intro file touches
      rw [parse_unresolved resolved] at touches
      obtain own | ⟨_, _, never, _⟩ := touches
      · exact absurd own List.not_mem_nil
      · cases never
    · intro path ok
      rw [resolved] at ok
      cases ok
  | ok path =>
    obtain ⟨_, inside, _⟩ := inside_resolve linkless resolved
    cases isSource : content.elim (disk.readText path) .ok with
    | error e =>
      have parsed := @parse_unread _ load limit scratch _ _ _ _ _ _ resolved isSource
      constructor
      · intro file touches
        rw [parsed] at touches
        obtain own | ⟨_, _, never, _⟩ := touches
        · exact inside_own inside file own
        · cases never
      · intro _ _ _ _ _
        exact ⟨e, congrArg Parsed.result parsed⟩
    | ok source =>
      have heads := confined.heads path source resolved isSource
      cases checked : disk.checkIncludes limit path source with
      | mk met fault =>
        have all := checkIncludes_inside heads checked
        cases fault with
        | some e =>
          have parsed := @parse_failed _ load limit scratch _ _ _ _ _ _ _ _ resolved isSource checked
          constructor
          · intro file touches
            rw [parsed] at touches
            obtain own | ⟨_, _, never, _⟩ := touches
            · exact inside_reads inside all file own
            · cases never
          · intro _ _ _ _ _
            exact ⟨e, congrArg Parsed.result parsed⟩
        | none =>
          have parsed := @parse_passed _ load limit scratch _ _ _ _ _ _ _ resolved isSource checked
          constructor
          · intro file touches
            rw [parsed] at touches
            obtain own | ⟨seen, start, loads, named⟩ := touches
            · rw [loadParsed_reads] at own
              exact inside_reads inside all file own
            · rw [loadParsed_loads] at loads
              exact loads_inside linkless confined resolved isSource checked loads named
          · intro other same file named outside
            rw [resolved] at same
            cases same
            have reached : file = path ∨ file ∈ met := by
              cases content with
              | none => exact named_parsed checked rfl isSource rfl (fun _ _ => rfl) named
              | some content =>
                cases isSource
                exact @named_parsed _ _ disk
                  (disk.put _ source) source limit met checked _ rfl readText_put
                  (includeTargets_newlines source) (fun _ apart => node_put apart) named
            obtain rfl | member := reached
            · exact absurd inside outside
            · exact absurd (all file member) outside

/-- And the rest of the disk has no part in its result. -/
theorem Confined.result (readsNamed : ReadsNamed load) (linkless : Linkless base disk)
    (confined : Confined limit scratch base disk relative content)
    (agrees : SameDirectory base disk disk') :
    (ConfigRepository.parse load limit scratch base disk' relative content).result =
      (ConfigRepository.parse load limit scratch base disk relative content).result := by
  cases resolved : ConfigRepository.resolve base disk relative with
  | error e => rw [parse_unresolved resolved, parse_unresolved (agrees.resolved.trans resolved)]
  | ok path =>
    obtain ⟨_, inside, _⟩ := inside_resolve linkless resolved
    have resolved' := agrees.resolved.trans resolved
    cases isSource : content.elim (disk.readText path) .ok with
    | error e => rw [parse_unread resolved isSource,
        parse_unread resolved' ((agrees.parsedText inside).trans isSource)]
    | ok source =>
      have isSource' := (agrees.parsedText inside).trans isSource
      have same := checkIncludes_agrees (confined.heads path source resolved isSource) agrees
      cases checked : disk.checkIncludes limit path source with
      | mk met fault =>
        cases fault with
        | some e =>
          rw [parse_failed resolved isSource checked,
            parse_failed resolved' isSource' (same.trans checked)]
        | none =>
          rw [parse_passed resolved isSource checked,
            parse_passed resolved' isSource' (same.trans checked)]
          cases content with
          | none =>
            exact readsNamed.agrees agrees (fun file named =>
              loads_inside linkless confined resolved isSource checked
              rfl named)
          | some content =>
            cases scratch with
            | none => rfl
            | some random =>
              exact readsNamed.agrees (agrees.put _) (fun file named =>
                loads_inside linkless confined resolved
                isSource checked rfl named)

end Confinement

/-! ## What leads out -/

section Escapes
variable {α : Type*} {load : Volume → Path → Except Raised α} {limit : Nat}
  {scratch : Option String} {base : Path}
variable {disk disk' : Volume} {relative : String} {content : Option String}
  {path file included : Path} {source : String}
variable {met reads : List Path} {random : String} {s : State (Path × String) Path}

theorem agrees_put (outside : ¬ Inside base included) :
    SameDirectory base disk (disk.put included source) :=
  ⟨rfl, fun _ inside => node_put (fun same => outside (same ▸ inside))⟩

/-- Every file that was met is read by `parse` itself, the parsed one apart. -/
theorem parse_reads (resolved : ConfigRepository.resolve base disk relative = .ok path)
    (isSource : content.elim (disk.readText path) .ok = .ok source)
    (member : file ∈ (disk.checkIncludes limit path source).1) (other : file ≠ path) :
    file ∈ (ConfigRepository.parse load limit scratch base disk relative content).reads := by
  cases checked : disk.checkIncludes limit path source with
  | mk met fault =>
    rw [checked] at member
    have read : file ∈ ownReads content path ++ met.filter (· ≠ path) :=
      List.mem_append_right _ (List.mem_filter.mpr ⟨member, decide_eq_true other⟩)
    cases fault with
    | some e =>
      rw [parse_failed resolved isSource checked]
      exact read
    | none =>
      rw [parse_passed resolved isSource checked, loadParsed_reads]
      exact read

/-- If a directive leads to a supported path outside before any fails, a file there is read. -/
theorem escape_reads (linkless : Linkless base disk)
    (resolved : ConfigRepository.resolve base disk relative = .ok path)
    (isSource : content.elim (disk.readText path) .ok = .ok source)
    (reaches : Reaches disk.checkedGraph path (checkStart limit path source) s)
    (escapes : ¬ HeadInside base disk s) :
    ∃ included, ¬ Inside base included ∧
      included ∈ (ConfigRepository.parse load limit scratch base
        (disk.put included "") relative content).reads := by
  obtain ⟨u, keeps, escapes⟩ := reaches.first escapes
  obtain ⟨_, inside, _⟩ := inside_resolve linkless resolved
  unfold HeadInside at escapes
  push Not at escapes
  obtain ⟨n, directive, rest, included, isHead, leads, supported, outside⟩ := escapes
  refine ⟨included, outside, ?_⟩
  have agrees : SameDirectory base disk (disk.put included "") := agrees_put outside
  have follows : Reaches (disk.put included "").checkedGraph path (checkStart limit path source) u := by
    clear isHead
    induction keeps with
    | refl => exact .refl
    | tail _ step ih => exact ih.tail ((agrees.next step.1).trans step.2)
  have isFile : (disk.put included "").node included = .file (some "".toUTF8.data.toList) := if_pos rfl
  have target : (disk.put included "").checkedTarget directive = .ok included :=
    checkedTarget_file leads supported isFile
  have halts := (search_halts (disk.put included "").checkedGraph path limit
    (directives path source)).later follows
  obtain ⟨met, agenda⟩ := u
  cases isHead
  have member := halts.head_met target
  exact parse_reads (agrees.resolved.trans resolved) ((agrees.parsedText inside).trans isSource) member
    (fun same => outside (same ▸ inside))

/-- The temporary file names what the check meets. -/
structure Mirrors (disk : Volume) (path : Path) (source random : String)
    (s : State (Path × String) Path) : Prop where
  met : ∀ file ∈ s.met, NamedFile (disk.put (temporary path random) source) (temporary path random) file
  agenda : ∀ n directive included, (n, directive) ∈ s.agenda →
    disk.checkedTarget directive = .ok included →
    NamedFile (disk.put (temporary path random) source) (temporary path random) included

theorem follows_start (supported : isSupported path = true) :
    Mirrors disk path source random (checkStart limit path source) := by
  constructor
  · exact fun _ never => nomatch never
  · intro n directive included member target
    obtain ⟨⟨from_path, raw⟩, isDirective, same⟩ := List.mem_map.mp member
    cases same
    obtain ⟨yaml, named, rfl⟩ := mem_directives.mp isDirective
    have leads := (checkedTarget_ok target).1
    rw [← includeTargets_newlines] at named
    rw [← @isYaml_temporary from_path random supported] at yaml
    refine .names _ included _ raw .self readText_put (mem_directives.mpr ⟨yaml, named, rfl⟩) ?_
    have same : (disk.put (temporary from_path random) source).included (temporary from_path random) =
        disk.included from_path := by
      unfold Volume.included
      rw [parent_temporary]
      rfl
    rw [same]
    exact leads

theorem Mirrors.step {t : State (Path × String) Path}
    (vacant : disk.node (temporary path random) = .missing)
    (follows : Mirrors disk path source random s) (takes : Traverses disk.checkedGraph path s t) :
    Mirrors disk path source random t := by
  cases takes with
  | seen n directive node met rest target seen =>
    exact ⟨follows.met, fun m other included member =>
      follows.agenda m other included (List.mem_cons_of_mem _ member)⟩
  | root n directive met rest target =>
    refine ⟨fun file member => ?_, fun m other included member =>
      follows.agenda m other included (List.mem_cons_of_mem _ member)⟩
    obtain rfl | member := List.mem_cons.mp member
    · exact follows.agenda n directive _ List.mem_cons_self target
    · exact follows.met file member
  | opened n directive node met rest out target _ opened =>
    have named := follows.agenda _ directive node List.mem_cons_self target
    constructor
    · intro file member
      obtain rfl | member := List.mem_cons.mp member
      · exact named
      · exact follows.met file member
    · intro m other included member leads
      obtain member | member := List.mem_append.mp member
      · obtain ⟨⟨file, raw⟩, isOut, same⟩ := List.mem_map.mp member
        cases same
        rw [checkedGraph_edges] at opened
        obtain ⟨_, _, bytes, isFile⟩ := checkedTarget_ok target
        have apart : node ≠ temporary path random := by
          rintro rfl
          rw [vacant] at isFile
          cases isFile
        cases reads : disk.readText node with
        | error e =>
          rw [reads] at opened
          cases opened
        | ok text =>
          rw [reads] at opened
          cases opened
          obtain ⟨_, _, rfl⟩ := mem_directives.mp isOut
          exact .names file included text raw named
            ((readText_node (node_put apart)).trans reads) isOut (checkedTarget_ok leads).1
      · exact follows.agenda m other included (List.mem_cons_of_mem _ member) leads

/-- The temporary file names what the stored file of the parsed name does, if it names that file. -/
theorem named_stored (vacant : disk.node (temporary path random) = .missing)
    (start : NamedFile (disk.put (temporary path random) source) (temporary path random) path)
    (named : NamedFile disk path file) :
    NamedFile (disk.put (temporary path random) source) (temporary path random) file := by
  refine named.closed
    (P := NamedFile (disk.put (temporary path random) source) (temporary path random)) start ?_
  intro file text raw included named reads directive leads
  have apart : file ≠ temporary path random := by
    rintro rfl
    unfold Volume.readText at reads
    rw [vacant] at reads
    cases reads
  exact .names file included text raw named
    ((readText_node (node_put apart)).trans reads) directive leads

/-- A configuration that is contained on every disk with the same directory is confined. -/
theorem confined_of_contained (linkless : Linkless base disk) (fresh : Fresh base disk relative scratch)
    (contained : ∀ disk', SameDirectory base disk disk' →
      Contained load limit scratch base disk' relative content) :
    Confined limit scratch base disk relative content := by
  constructor
  · intro path source resolved isSource s reaches
    by_contra escapes
    obtain ⟨included, outside, read⟩ :=
      @escape_reads _ load _ scratch _ _ _ _ _ _ _ linkless resolved isSource reaches escapes
    exact outside ((contained _ (agrees_put outside)).inside included (.inl read))
  · intro path source met resolved isSource written reaches member file named
    subst isSource
    obtain ⟨random, rfl⟩ := Option.isSome_iff_exists.mp written
    have vacant := fresh path random resolved rfl
    have follows : Mirrors disk path source random ⟨met, []⟩ :=
      reaches.invariant (follows_start (inside_resolve linkless resolved).2.2)
        (fun _ _ _ follows more => follows.step vacant (next_takes more))
    have reached := named_stored vacant (follows.met path member) named
    have same : SameDirectory base disk disk := ⟨rfl, fun _ _ => rfl⟩
    refine (contained disk same).inside file
      (.inr ⟨disk.put (temporary path random) source, temporary path random, ?_, reached⟩)
    rw [parse_passed resolved rfl (search_passes.mp reaches), loadParsed_loads]
    rfl

/-- Parsing is contained on every disk with the same configuration directory, with one result for
all of them, if and only if the configuration is confined. -/
theorem parse_contained_iff (load : Volume → Path → Except Raised α) (limit : Nat)
    (relative : String) (content : Option String)
    (readsNamed : ReadsNamed load) (linkless : Linkless base disk)
    (fresh : Fresh base disk relative scratch) :
    (∀ disk', SameDirectory base disk disk' → Contained load limit scratch base disk' relative content ∧
      (ConfigRepository.parse load limit scratch base disk' relative content).result =
        (ConfigRepository.parse load limit scratch base disk relative content).result) ↔
    Confined limit scratch base disk relative content := by
  constructor
  · intro all
    exact confined_of_contained linkless fresh (fun disk' agrees => (all disk' agrees).1)
  · intro confined disk' agrees
    have linkless' : Linkless base disk' := fun components plain => by
      rw [agrees.resolve]
      exact linkless components plain
    exact ⟨(confined.agrees linkless agrees).contained linkless',
      confined.result readsNamed linkless agrees⟩

/-- Where every directive in the directory, and of the content, leads inside, the configuration is
confined. -/
theorem confined_of_closed (linkless : Linkless base disk)
    (closed : ∀ file text raw included, Inside base file →
      disk.readText file = .ok text ∨
        content = some text ∧ ConfigRepository.resolve base disk relative = .ok file →
      (file, raw) ∈ directives file text → disk.included file (unquoted raw) = .ok included →
      Inside base included) :
    Confined limit scratch base disk relative content := by
  constructor
  · intro path source resolved isSource s reaches
    obtain ⟨_, inside, _⟩ := inside_resolve linkless resolved
    have isText : disk.readText path = .ok source ∨
        content = some source ∧ ConfigRepository.resolve base disk relative = .ok path := by
      cases content with
      | none => exact .inl isSource
      | some content =>
        cases isSource
        exact .inr ⟨rfl, resolved⟩
    have all : ∀ n directive included, (n, directive) ∈ s.agenda →
        disk.included directive.1 (unquoted directive.2) = .ok included → Inside base included := by
      refine reaches.invariant (P := fun s => ∀ n directive included, (n, directive) ∈ s.agenda →
        disk.included directive.1 (unquoted directive.2) = .ok included → Inside base included) ?_ ?_
      · intro n directive included member leads
        obtain ⟨⟨file, raw⟩, isDirective, same⟩ := List.mem_map.mp member
        cases same
        obtain ⟨_, _, rfl⟩ := mem_directives.mp isDirective
        exact closed file source raw included inside isText isDirective leads
      · intro u v _ all more
        cases next_takes more with
        | seen =>
          exact fun n directive included member =>
            all n directive included (List.mem_cons_of_mem _ member)
        | root =>
          exact fun n directive included member =>
            all n directive included (List.mem_cons_of_mem _ member)
        | opened n directive node met rest out target _ opened =>
          have inside := all _ directive node List.mem_cons_self (checkedTarget_ok target).1
          intro m other included member leads
          obtain member | member := List.mem_append.mp member
          · obtain ⟨⟨file, raw⟩, isOut, same⟩ := List.mem_map.mp member
            cases same
            rw [checkedGraph_edges] at opened
            cases reads : disk.readText node with
            | error e =>
              rw [reads] at opened
              cases opened
            | ok text =>
              rw [reads] at opened
              cases opened
              obtain ⟨_, _, rfl⟩ := mem_directives.mp isOut
              exact closed file text raw included inside (.inl reads) isOut leads
          · exact all m other included (List.mem_cons_of_mem _ member) leads
    exact fun n directive rest included isHead leads _ =>
      all n directive included (isHead ▸ List.mem_cons_self) leads
  · intro path source met resolved _ _ _ _ file named
    exact named.closed (P := Inside base) (inside_resolve linkless resolved).2.1
      (fun file text raw included inside reads directive leads =>
        closed file text raw included inside (.inl reads) directive leads)

end Escapes

section Runs

/-- A disk without symbolic links that holds a few files. -/
def plainDisk (files : List (Path × String)) : Volume where
  realpath := normal
  loops := fun _ => false
  node := fun path => (files.lookup path).elim .missing
    (fun text => .file (some text.toUTF8.data.toList))

/-- A loader of a document, or of a file that includes it twice. -/
def loadPlain (disk : Volume) (path : Path) : Except Raised Json :=
  match disk.readText path with
  | .error e => .error e
  | .ok text =>
    let parts := (directives path text).map
      (fun named => (disk.included named.1 (unquoted named.2)).bind disk.readText)
    if text = "x: 1\n" ∨ parts = [.ok "x: 1\n", .ok "x: 1\n"] then .ok (.obj [("x", .int 1)])
    else .error (.other "unsupported")

theorem loadPlain_readsNamed : ReadsNamed loadPlain := by
  intro disk disk' path links same
  unfold loadPlain
  rw [readText_node (same path .self)]
  cases reads : disk.readText path with
  | error e => rfl
  | ok text =>
    have parts :
        (directives path text).map
            (fun named => (disk'.included named.1 (unquoted named.2)).bind disk'.readText) =
          (directives path text).map
            (fun named => (disk.included named.1 (unquoted named.2)).bind disk.readText) := by
      refine List.map_congr_left (fun named member => ?_)
      obtain ⟨file, raw⟩ := named
      obtain ⟨_, _, rfl⟩ := mem_directives.mp member
      have sameTarget : disk'.included file (unquoted raw) = disk.included file (unquoted raw) := by
        unfold Volume.included
        rw [links]
      dsimp only
      rw [sameTarget]
      cases leads : disk.included file (unquoted raw) with
      | error e => rfl
      | ok included =>
        exact readText_node
          (same included (.names file included text raw .self reads member leads))
    dsimp only
    rw [parts]

theorem linkless_plain {base : Path} (plain : Plain base) (files : List (Path × String)) :
    Linkless base (plainDisk files) := by
  intro components isPlain
  refine volume_resolve_iff.mpr ⟨rfl, normal_plain (fun climbs => ?_)⟩
  obtain member | member := List.mem_append.mp climbs
  · obtain member | same := List.mem_append.mp member
    · exact plain member
    · exact absurd (List.mem_singleton.mp same) (by decide)
  · exact isPlain member

theorem readText_plain {files : List (Path × String)} {file : Path} {text : String}
    (reads : (plainDisk files).readText file = .ok text) :
    ∃ content, files.lookup file = some content ∧ includeTargets text = includeTargets content := by
  unfold Volume.readText plainDisk at reads
  dsimp only at reads
  cases stored : files.lookup file with
  | none =>
    rw [stored] at reads
    cases reads
  | some content =>
    rw [stored] at reads
    dsimp only [Option.elim] at reads
    rw [fromUTF8?_bytes] at reads
    cases reads
    exact ⟨content, rfl, includeTargets_newlines content⟩

/-- Two documents in the directory. -/
def twoDocuments : Volume :=
  plainDisk [(["srv", "config", "a.yaml"], "x: 1\n"), (["srv", "config", "base.yaml"], "x: 1\n")]

/-- A draft of the first that includes both. -/
def includingDraft : String := "!include a.yaml base.yaml\n"

/-- The parse of a draft over the stored file that it includes is contained. -/
theorem parse_contained_plain :
    Contained loadPlain 100 (some "r") ["srv"] twoDocuments "a.yaml" (some includingDraft) ∧
    (ConfigRepository.parse loadPlain 100 (some "r") ["srv"] twoDocuments "a.yaml"
      (some includingDraft)).reads =
      [["srv", "config", "base.yaml"]] ∧
    (ConfigRepository.parse loadPlain 100 (some "r") ["srv"] twoDocuments "a.yaml"
      (some includingDraft)).result.toOption.isSome = true := by
  have linkless : Linkless ["srv"] twoDocuments := linkless_plain (by decide) _
  have resolved : ConfigRepository.resolve ["srv"] twoDocuments "a.yaml" = .ok
    ["srv", "config", "a.yaml"] := by decide +kernel
  have confined : Confined 100 (some "r") ["srv"] twoDocuments "a.yaml" (some includingDraft) := by
    refine confined_of_closed linkless (fun file text raw included _ isText directive leads => ?_)
    obtain ⟨_, named, _⟩ := mem_directives.mp directive
    obtain reads | ⟨isDraft, isFile⟩ := isText
    · obtain ⟨content, stored, same⟩ := readText_plain reads
      have isContent : content = "x: 1\n" := by
        rw [List.lookup_cons] at stored
        split at stored
        · exact (Option.some.inj stored).symm
        · rw [List.lookup_cons] at stored
          split at stored
          · exact (Option.some.inj stored).symm
          · cases stored
      have silent : includeTargets "x: 1\n" = [] := by decide +kernel
      rw [same, isContent, silent] at named
      cases named
    · cases isDraft
      rw [resolved] at isFile
      cases isFile
      have targets : includeTargets includingDraft = ["a.yaml", "base.yaml"] := by decide +kernel
      have leadsFirst : twoDocuments.included ["srv", "config", "a.yaml"] (unquoted "a.yaml") =
          .ok ["srv", "config", "a.yaml"] := by decide +kernel
      have leadsSecond : twoDocuments.included ["srv", "config", "a.yaml"] (unquoted "base.yaml") =
          .ok ["srv", "config", "base.yaml"] := by decide +kernel
      rw [targets] at named
      simp only [List.mem_cons, List.not_mem_nil, or_false] at named
      obtain rfl | rfl := named
      · rw [leadsFirst] at leads
        cases leads
        decide
      · rw [leadsSecond] at leads
        cases leads
        decide
  have fresh : Fresh ["srv"] twoDocuments "a.yaml" (some "r") := by
    intro path random isPath isRandom
    rw [resolved] at isPath
    cases isPath
    cases isRandom
    have missing : [(["srv", "config", "a.yaml"], "x: 1\n"),
      (["srv", "config", "base.yaml"], "x: 1\n")].lookup
        (temporary ["srv", "config", "a.yaml"] "r") = none := by decide +kernel
    exact congrArg (fun stored =>
      Option.elim stored VolumeNode.missing (fun text => .file (some text.toUTF8.data.toList))) missing
  have all := (parse_contained_iff loadPlain 100 "a.yaml"
    (some includingDraft) loadPlain_readsNamed linkless fresh).mpr confined
  exact ⟨(all _ ⟨rfl, fun _ _ => rfl⟩).1, by decide +kernel, by decide +kernel⟩

/-- A directive that leads to a file beside the directory has that file read. -/
theorem parse_escapes :
    ¬ ∀ (load : Volume → Path → Except Raised Json) (limit : Nat) (scratch : Option String)
    (base : Path)
    (disk : Volume) (relative : String) (content : Option String), ReadsNamed load →
      Linkless base disk →
    Fresh base disk relative scratch → Contained load limit scratch base disk relative content := by
  intro always
  have contained := always loadPlain 100 none ["srv"]
    (plainDisk [(["srv", "config", "a.yaml"], "!include ../out.yaml\n"),
      (["srv", "out.yaml"], "x: 1\n")]) "a.yaml" none
    loadPlain_readsNamed (linkless_plain (by decide) _) (fun _ _ _ never => by cases never)
  have reads : (ConfigRepository.parse loadPlain 100 none ["srv"]
    (plainDisk [(["srv", "config", "a.yaml"],
      "!include ../out.yaml\n"), (["srv", "out.yaml"], "x: 1\n")]) "a.yaml" none).reads =
      [["srv", "config", "a.yaml"], ["srv", "out.yaml"]] := by decide +kernel
  have outside := contained.inside ["srv", "out.yaml"] (.inl (by rw [reads]; decide))
  exact absurd outside (by decide)

end Runs

end LocalFlow
