import LocalFlow.Includes
import LocalFlow.Watching

/-! Which files the include directives of a configuration lead to, and what the repository finds of
them. -/
namespace LocalFlow
open Paths DepthFirst

/-- A file that a directive of `path` leads to, or one of a file that is led to. -/
inductive Target (disk : Volume) (reads : Path → Except Raised String) (path : Path) : Path → Prop where
  | first {text raw : String} {included : Path} (isText : reads path = .ok text)
      (directive : (path, raw) ∈ directives path text)
      (leads : disk.included path (unquoted raw) = .ok included) : Target disk reads path included
  | next {file : Path} {text raw : String} {included : Path} (target : Target disk reads path file)
      (isText : reads file = .ok text) (directive : (file, raw) ∈ directives file text)
      (leads : disk.included file (unquoted raw) = .ok included) : Target disk reads path included

/-- The texts of the files, with a content in the place of one. -/
def Volume.edited (disk : Volume) (path : Path) (content : String) (file : Path) :
    Except Raised String :=
  if file = path then .ok content else disk.readText file

/-- A directive names a file that is there, of a supported type and readable. -/
def Volume.Named (disk : Volume) (reads : Path → Except Raised String) (file : Path)
    (raw : String) : Prop :=
  ∃ included, disk.included file (unquoted raw) = .ok included ∧ isSupported included = true ∧
    (∃ bytes, disk.node included = .file bytes) ∧ ∃ text, reads included = .ok text

/-- Files each of which is named by a directive of the one before, the last first. -/
inductive IncludeChain (disk : Volume) (reads : Path → Except Raised String) (path : Path) :
    List Path → Prop where
  | first {text raw : String} {included : Path} (isText : reads path = .ok text)
      (directive : (path, raw) ∈ directives path text)
      (leads : disk.included path (unquoted raw) = .ok included) : IncludeChain disk reads path
        [included]
  | next {file : Path} {files : List Path} {text raw : String} {included : Path}
      (chain : IncludeChain disk reads path (file :: files)) (isText : reads file = .ok text)
      (directive : (file, raw) ∈ directives file text)
        (leads : disk.included file (unquoted raw) = .ok included) :
      IncludeChain disk reads path (included :: file :: files)

/-- Includes lead from a configuration through more files than the interpreter lets calls nest, none
of them twice. -/
def TooDeep (disk : Volume) (reads : Path → Except Raised String) (limit : Nat) (path : Path) : Prop :=
  ∃ files, IncludeChain disk reads path files ∧ (path :: files).Nodup ∧ limit < files.length

section Graphs
variable {disk : Volume} {path file node : Path} {content raw : String} {limit : Nat}
  {edges : List (Path × String)}

theorem edited_other (other : file ≠ path) : disk.edited path content file = disk.readText file :=
  if_neg other

theorem edited_self : disk.edited path content path = .ok content := if_pos rfl

theorem checkedTarget_named {reads : Path → Except Raised String} (named : disk.Named reads file raw) :
    ∃ included text, disk.checkedTarget (file, raw) = .ok included ∧ reads included = .ok text ∧
      disk.included file (unquoted raw) = .ok included := by
  obtain ⟨included, leads, supported, ⟨bytes, isFile⟩, text, isText⟩ := named
  exact ⟨included, text, checkedTarget_file leads supported isFile, isText, leads⟩

/-- What the check can meet, the directives lead to. -/
theorem target_of_checked (attained : Attained disk.checkedGraph path (directives path content) node) :
    Target disk (disk.edited path content) path node := by
  induction attained with
  | @first edge node member target =>
    rw [checkedGraph_target] at target
    obtain ⟨file, raw⟩ := edge
    obtain ⟨_, _, rfl⟩ := mem_directives.mp member
    exact .first edited_self member (checkedTarget_ok target).1
  | @next before out edge node attained inner opened member target ih =>
    rw [checkedGraph_target] at target
    rw [checkedGraph_edges] at opened
    cases reads : disk.readText before with
    | error e =>
      rw [reads] at opened
      cases opened
    | ok text =>
      rw [reads] at opened
      cases opened
      obtain ⟨file, raw⟩ := edge
      obtain ⟨_, _, rfl⟩ := mem_directives.mp member
      exact .next ih ((edited_other inner).trans reads) member (checkedTarget_ok target).1

/-- What a directive that the check meets leads away from. -/
theorem leaving_checked {directive : Path × String}
    (leaving : Leaving disk.checkedGraph path (directives path content) directive) :
    ∃ file text raw, directive = (file, raw) ∧
    (file = path ∨ Target disk (disk.edited path content) path file) ∧
      disk.edited path content file = .ok text ∧ (file, raw) ∈ directives file text := by
  obtain ⟨file, raw⟩ := directive
  rcases leaving with member | ⟨before, out, attained, inner, opened, member⟩
  · obtain ⟨_, _, rfl⟩ := mem_directives.mp member
    exact ⟨file, content, raw, rfl, .inl rfl, edited_self, member⟩
  · rw [checkedGraph_edges] at opened
    cases reads : disk.readText before with
    | error e =>
      rw [reads] at opened
      cases opened
    | ok text =>
      rw [reads] at opened
      cases opened
      obtain ⟨_, _, rfl⟩ := mem_directives.mp member
      exact ⟨file, text, raw, rfl, .inr (target_of_checked attained),
        (edited_other inner).trans reads, member⟩

/-- A directive of the file or of one that the check can meet is one that it meets. -/
theorem checked_leaving {text : String}
    (reached : file = path ∨ Attained disk.checkedGraph path (directives path content) file)
    (isText : disk.edited path content file = .ok text)
    (directive : (file, raw) ∈ directives file text) :
    Leaving disk.checkedGraph path (directives path content) (file, raw) := by
  by_cases self : file = path
  · subst self
    rw [edited_self] at isText
    cases isText
    exact .inl directive
  · rw [edited_other self] at isText
    refine .inr ⟨file, directives file text, reached.resolve_left self, self, ?_, directive⟩
    rw [checkedGraph_edges, isText]
    rfl

/-- Nothing that the check can meet is faulty if and only if all directives that it can meet name a
file. -/
theorem flawless_checked : Flawless disk.checkedGraph path (directives path content) ↔
    ∀ file text raw, file = path ∨ Target disk (disk.edited path content) path file →
      disk.edited path content file = .ok text → (file, raw) ∈ directives file text →
        disk.Named (disk.edited path content) file raw := by
  constructor
  · rintro ⟨sound, open_⟩
    -- Where no edge is faulty, the check meets all that the directives lead to.
    have met : ∀ file, Target disk (disk.edited path content) path file →
        Attained disk.checkedGraph path (directives path content) file := by
      intro file target
      induction target with
      | first isText directive leads =>
        have leaving := checked_leaving (.inl rfl) isText directive
        obtain ⟨node, found⟩ := sound _ leaving
        have same := (checkedTarget_ok found).1.symm.trans leads
        cases same
        exact leaving.attains found
      | next _ isText directive leads ih =>
        have leaving := checked_leaving (.inr ih) isText directive
        obtain ⟨node, found⟩ := sound _ leaving
        have same := (checkedTarget_ok found).1.symm.trans leads
        cases same
        exact leaving.attains found
    intro file text raw reached isText directive
    have leaving := checked_leaving (reached.imp_right (met file)) isText directive
    obtain ⟨node, found⟩ := sound _ leaving
    obtain ⟨leads, supported, isFile⟩ := checkedTarget_ok found
    refine ⟨node, leads, supported, isFile, ?_⟩
    by_cases self : node = path
    · exact ⟨content, self ▸ edited_self⟩
    · obtain ⟨out, opened⟩ := open_ node (leaving.attains found) self
      rw [checkedGraph_edges] at opened
      rw [edited_other self]
      cases reads : disk.readText node with
      | ok text => exact ⟨text, rfl⟩
      | error e =>
        rw [reads] at opened
        cases opened
  · intro named
    constructor
    · intro directive leaving
      obtain ⟨file, text, raw, rfl, reached, isText, member⟩ := leaving_checked leaving
      obtain ⟨included, _, found, _, _⟩ :=
        checkedTarget_named (named file text raw reached isText member)
      exact ⟨included, found⟩
    · intro node attained inner
      obtain ⟨directive, leaving, target⟩ : ∃ directive,
        Leaving disk.checkedGraph path (directives path content) directive ∧
          disk.checkedGraph.target directive = .ok node := by
        cases attained with
        | first member target => exact ⟨_, .inl member, target⟩
        | next attained inner opened member target =>
          exact ⟨_, .inr ⟨_, _, attained, inner, opened, member⟩, target⟩
      obtain ⟨file, text, raw, rfl, reached, isText, member⟩ := leaving_checked leaving
      obtain ⟨included, other, found, reads, _⟩ :=
        checkedTarget_named (named file text raw reached isText member)
      rw [checkedGraph_target, found] at target
      cases target
      rw [edited_other inner] at reads
      exact ⟨_, by rw [checkedGraph_edges, reads]; rfl⟩

/-- The files of nested calls of the check. -/
theorem chain_checked {files : List Path}
    (chain : Chain disk.checkedGraph path (directives path content) files) :
    IncludeChain disk (disk.edited path content) path files := by
  induction chain with
  | @first edge node member target =>
    rw [checkedGraph_target] at target
    obtain ⟨file, raw⟩ := edge
    obtain ⟨_, _, rfl⟩ := mem_directives.mp member
    exact .first edited_self member (checkedTarget_ok target).1
  | @next before node nodes out edge _ inner opened member target ih =>
    rw [checkedGraph_target] at target
    rw [checkedGraph_edges] at opened
    cases reads : disk.readText before with
    | error e =>
      rw [reads] at opened
      cases opened
    | ok text =>
      rw [reads] at opened
      cases opened
      obtain ⟨file, raw⟩ := edge
      obtain ⟨_, _, rfl⟩ := mem_directives.mp member
      exact .next ih ((edited_other inner).trans reads) member (checkedTarget_ok target).1

/-- The check accepts a text if and only if all directives that it can meet name a file, unless it
nests its calls too deep. -/
theorem checkIncludes_outcome :
    ((disk.checkIncludes limit path content).2 = none ↔
      ∀ file text raw, file = path ∨ Target disk (disk.edited path content) path file →
        disk.edited path content file = .ok text → (file, raw) ∈ directives file text →
          disk.Named (disk.edited path content) file raw) ∨
    (disk.checkIncludes limit path content).2 = some .recursion ∧
      TooDeep disk (disk.edited path content) limit path := by
  rw [← flawless_checked]
  refine search_outcome.imp_right (fun ⟨ends, files, chain, distinct, deep⟩ =>
    ⟨ends, files, chain_checked chain, distinct, deep⟩)

end Graphs

/-! ## Dependencies -/

section Closure
variable {disk : Volume} {base path file node : Path} {relative raw : String} {limit : Nat}
  {edges : List (Path × String)}

theorem dependencyEdges_mem (opened : disk.dependencyEdges file = .ok edges)
    {directive : Path × String} :
    directive ∈ edges ↔ ∃ text raw, directive = (file, raw) ∧ disk.readText file = .ok text ∧
    (file, raw) ∈ directives file text := by
  unfold Volume.dependencyEdges at opened
  split at opened
  · rename_i yaml
    cases reads : disk.readText file with
    | ok content =>
      rw [reads] at opened
      cases opened
      constructor
      · intro member
        obtain ⟨other, raw⟩ := directive
        obtain ⟨_, _, rfl⟩ := mem_directives.mp member
        exact ⟨content, raw, rfl, rfl, member⟩
      · rintro ⟨text, raw, rfl, same, member⟩
        cases same
        exact member
    | error e =>
      rw [reads] at opened
      refine iff_of_false (fun member => ?_) ?_
      · cases e with
        | os =>
          cases opened
          cases member
        | _ => cases opened
      · rintro ⟨text, raw, _, never, _⟩
        cases never
  · rename_i other
    cases opened
    refine iff_of_false List.not_mem_nil ?_
    rintro ⟨text, raw, _, _, member⟩
    exact other (mem_directives.mp member).1

/-- The files that the directives of a configuration lead to and itself, as far as they are YAML,
are UTF-8, and no directive of them holds a null byte or leads into a loop of links. -/
def Followable (disk : Volume) (path : Path) : Prop :=
  ∀ file, file = path ∨ Target disk disk.readText path file → isYaml file = true →
    disk.readText file ≠ .error .decode ∧ ∀ text raw, disk.readText file = .ok text →
      (file, raw) ∈ directives file text →
      embedsNull (unquoted raw) = false ∧ disk.loops (join (parent file) (unquoted raw)) = false

theorem Followable.opens (followable : Followable disk path)
    (reached : file = path ∨ Target disk disk.readText path file) :
    ∃ edges, disk.dependencyEdges file = .ok edges :=
  dependencyEdges_iff.mpr (fun bad => (followable file reached bad.1).1 bad.2)

/-- What the walk for the dependencies of a file meets, the directives lead to. -/
theorem target_of_attained (opened : disk.dependencyEdges path = .ok edges)
    (attained : Attained disk.dependencyGraph path edges node) :
    Target disk disk.readText path node := by
  induction attained with
  | first member target =>
    obtain ⟨text, raw, rfl, reads, directive⟩ := (dependencyEdges_mem opened).mp member
    exact .first reads directive target
  | next attained inner opened member target ih =>
    obtain ⟨text, raw, rfl, reads, directive⟩ := (dependencyEdges_mem opened).mp member
    exact .next ih reads directive target

/-- Where the directives can be followed, the walk meets all that they lead to. -/
theorem attained_dependency (opened : disk.dependencyEdges path = .ok edges)
    (followable : Followable disk path) :
    Attained disk.dependencyGraph path edges node ↔ Target disk disk.readText path node := by
  refine ⟨target_of_attained opened, fun target => ?_⟩
  induction target with
  | first isText directive leads =>
    exact .first ((dependencyEdges_mem opened).mpr ⟨_, _, rfl, isText, directive⟩) leads
  | @next file content raw included target isText directive leads ih =>
    by_cases self : file = path
    · subst self
      exact .first ((dependencyEdges_mem opened).mpr ⟨_, _, rfl, isText, directive⟩) leads
    · obtain ⟨out, isOut⟩ := followable.opens (.inr target)
      exact .next ih self isOut ((dependencyEdges_mem isOut).mpr ⟨_, _, rfl, isText, directive⟩) leads

theorem flawless_dependency (opened : disk.dependencyEdges path = .ok edges)
    (followable : Followable disk path) :
    Flawless disk.dependencyGraph path edges := by
  have leads : ∀ {file text raw}, (file = path ∨ Target disk disk.readText path file) →
    disk.readText file = .ok text →
      (file, raw) ∈ directives file text →
        ∃ node, disk.dependencyGraph.target (file, raw) = .ok node := by
    intro file text raw reached reads directive
    obtain ⟨whole, ends⟩ :=
      (followable file reached (mem_directives.mp directive).1).2 text raw reads directive
    exact ⟨_, included_iff.mpr ⟨whole, ends, rfl⟩⟩
  constructor
  · rintro directive (member | ⟨before, out, attained, _, isOut, member⟩)
    · obtain ⟨text, raw, rfl, reads, isDirective⟩ := (dependencyEdges_mem opened).mp member
      exact leads (.inl rfl) reads isDirective
    · obtain ⟨text, raw, rfl, reads, isDirective⟩ := (dependencyEdges_mem isOut).mp member
      exact leads (.inr (target_of_attained opened attained)) reads isDirective
  · intro node attained _
    exact followable.opens (.inr (target_of_attained opened attained))

/-- The files of nested calls of the walk. -/
theorem chain_dependency {files : List Path} (opened : disk.dependencyEdges path = .ok edges)
    (chain : Chain disk.dependencyGraph path edges files) :
    IncludeChain disk disk.readText path files := by
  induction chain with
  | first member target =>
    obtain ⟨text, raw, rfl, reads, directive⟩ := (dependencyEdges_mem opened).mp member
    exact .first reads directive target
  | next _ inner isOut member target ih =>
    obtain ⟨text, raw, rfl, reads, directive⟩ := (dependencyEdges_mem isOut).mp member
    exact .next ih reads directive target

/-- The dependencies of a file are what its directives lead to, unless the walk nests its calls too
deep. -/
theorem dependencies_target (followable : Followable disk path)
    (resolved : ConfigRepository.resolve base disk relative = .ok path) :
    (∃ found, ConfigRepository.dependencies base disk limit relative = .ok found ∧
      ∀ included, included ∈ found ↔ Target disk disk.readText path included) ∨
    ConfigRepository.dependencies base disk limit relative = .error .recursion ∧
      TooDeep disk disk.readText limit path := by
  obtain ⟨edges, opened⟩ := followable.opens (.inl rfl)
  have attains : ∀ {node}, Attained disk.dependencyGraph path edges node ↔
    Target disk disk.readText path node :=
    attained_dependency opened followable
  unfold ConfigRepository.dependencies
  rw [resolved]
  dsimp only
  rw [opened]
  dsimp only
  have outcome := @search_outcome _ _ _ _ disk.dependencyGraph path limit edges
  cases result : search disk.dependencyGraph path limit edges [] with
  | mk met fault =>
    rw [result] at outcome
    obtain passes | ⟨ends, files, chain, distinct, deep⟩ := outcome
    · cases passes.mpr (flawless_dependency opened followable)
      exact .inl ⟨met, rfl, fun included => (search_attains result).trans attains⟩
    · cases ends
      exact .inr ⟨rfl, files, chain_dependency opened chain, distinct, deep⟩

/-- The configurations among some candidates that a change affects. -/
theorem affectedAmong_mem {α : Type} {host : WatchHost α} {world : World} {changed : Path}
    {candidates found : List String}
    (done : affectedAmong host world relative changed candidates = .ok found) {name : String} :
    name ∈ found ↔ name ∈ candidates ∧ name ≠ relative ∧ ∃ met,
      ConfigRepository.dependencies host.base
      (world (.dependencies relative name)).disk host.limit name = .ok met ∧
        changed ∈ met := by
  induction candidates generalizing found with
  | nil =>
    cases done
    exact iff_of_false List.not_mem_nil (fun never => nomatch never.1)
  | cons candidate rest ih =>
    unfold affectedAmong at done
    split at done
    · rename_i same
      rw [ih done, List.mem_cons]
      constructor
      · rintro ⟨member, different⟩
        exact ⟨.inr member, different⟩
      · rintro ⟨rfl | member, other, met⟩
        · exact absurd same other
        · exact ⟨member, other, met⟩
    · rename_i other
      obtain ⟨met, isMet, done⟩ := except_bind done
      obtain ⟨later, isLater, done⟩ := except_bind done
      cases done
      rw [List.mem_cons]
      have rest := ih isLater
      constructor
      · intro member
        split at member
        · rename_i changes
          rcases List.mem_cons.mp member with rfl | member
          · exact ⟨.inl rfl, other, met, isMet, changes⟩
          · obtain ⟨listed, different⟩ := rest.mp member
            exact ⟨.inr listed, different⟩
        · obtain ⟨listed, different⟩ := rest.mp member
          exact ⟨.inr listed, different⟩
      · rintro ⟨rfl | member, different, all, isAll, changes⟩
        · rw [isMet] at isAll
          cases isAll
          rw [if_pos changes]
          exact List.mem_cons_self
        · have among := rest.mpr ⟨member, different, all, isAll, changes⟩
          split
          · exact List.mem_cons_of_mem _ among
          · exact among

end Closure

/-- A walk over some candidates is as good as each of their walks. -/
theorem affectedAmong_outcome {α : Type} {host : WatchHost α} {snapshot : Snapshot}
    {relative : String} {changed : Path}
    {candidates : List String} (walks : ∀ name ∈ candidates, name ≠ relative →
      (∃ found, ConfigRepository.dependencies host.base snapshot.disk host.limit name = .ok found) ∨
        ConfigRepository.dependencies host.base snapshot.disk host.limit name = .error .recursion) :
    (∃ among, affectedAmong host (fun _ => snapshot) relative changed candidates = .ok among) ∨
    affectedAmong host (fun _ => snapshot) relative changed candidates = .error .recursion ∧
      ∃ name ∈ candidates, name ≠ relative ∧
        ConfigRepository.dependencies host.base snapshot.disk host.limit name = .error .recursion := by
  induction candidates with
  | nil => exact .inl ⟨[], rfl⟩
  | cons name rest ih =>
    have later := ih (fun other member => walks other (List.mem_cons_of_mem _ member))
    unfold affectedAmong
    split
    · refine later.imp_right ?_
      rintro ⟨ends, other, member, deep⟩
      exact ⟨ends, other, List.mem_cons_of_mem _ member, deep⟩
    · rename_i other
      obtain ⟨found, isFound⟩ | deep := walks name List.mem_cons_self other
      · rw [isFound]
        obtain ⟨among, isAmong⟩ | ⟨ends, deeper, member, deep⟩ := later
        · refine .inl ⟨if changed ∈ found then name :: among else among, ?_⟩
          rw [isAmong]
          rfl
        · refine .inr ⟨?_, deeper, List.mem_cons_of_mem _ member, deep⟩
          rw [ends]
          rfl
      · refine .inr ⟨?_, name, List.mem_cons_self, other, deep⟩
        rw [deep]
        rfl

section Samples
variable {files : List (Path × String)}

/-- No directive of some files holds a null byte. -/
def spellsPlain (files : List (Path × String)) : Bool :=
  files.all (fun file =>
    (directives file.1 file.2).all (fun directive => !embedsNull (unquoted directive.2)))

theorem followable_plain {path : Path} (plain : spellsPlain files = true) :
    Followable (plainDisk files) path := by
  intro file _ yaml
  constructor
  · intro undecodable
    unfold Volume.readText plainDisk at undecodable
    dsimp only at undecodable
    cases stored : files.lookup file with
    | none =>
      rw [stored] at undecodable
      cases undecodable
    | some content =>
      rw [stored] at undecodable
      dsimp only [Option.elim] at undecodable
      rw [fromUTF8?_bytes] at undecodable
      cases undecodable
  · intro text raw reads directive
    obtain ⟨content, stored, same⟩ := readText_plain reads
    obtain ⟨_, named, _⟩ := mem_directives.mp directive
    have member : (file, content) ∈ files := by
      obtain ⟨before, after, rfl, _⟩ := List.lookup_eq_some_iff.mp stored
      exact List.mem_append_right _ List.mem_cons_self
    have listed := List.all_eq_true.mp plain (file, content) member
    have sound := List.all_eq_true.mp listed (file, raw) (mem_directives.mpr ⟨yaml, same ▸ named, rfl⟩)
    rw [Bool.not_eq_true'] at sound
    exact ⟨sound, rfl⟩

/-- Two files that include each other, and one that is missing. -/
def cyclicFiles : List (Path × String) :=
  [(["srv", "config", "a.yaml"], "!include b.yaml"),
    (["srv", "config", "b.yaml"], "!include a.yaml c.toml")]

end Samples

end LocalFlow
