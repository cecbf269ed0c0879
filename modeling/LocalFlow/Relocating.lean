import LocalFlow.Naming

/-! What a move preserves: what stands outside the targets of the include directives, the files that
the directives name, and on an error both paths. -/
namespace LocalFlow
open Paths FileTrees Scanning

namespace ConfigTree
variable (tree : ConfigTree) (limit : Nat)

/-- The directory entry of a path. -/
def held (path : Path) : Option (Entry (Option (List UInt8))) :=
  tree.entry (tree.resolve limit [] (parent path) ++ [name path])

/-- The text of the file that a path leads to. -/
def textAt (path : Path) : Option (List Char) :=
  match tree.entry (tree.resolve limit [] path) with
  | some (.file (some bytes)) => (String.fromUTF8? ⟨bytes.toArray⟩).map String.toList
  | _ => none

/-- What a configuration has outside the targets of its directives. Only a YAML file has directives. -/
def layoutAt (yaml : Bool) (path : Path) : Option (List (Option Char)) :=
  (tree.textAt limit path).map (fun text => if yaml then layout text else text.map some)

/-- The files that the directives of a configuration name, as the loader resolves them. -/
def includedAt (yaml : Bool) (path : Path) : Option (List (Except Raised Path)) :=
  (tree.textAt limit path).map (fun text =>
    if yaml then
      (targetsOf text).map
        (fun raw => (tree.volume limit).included (tree.resolve limit [] path) (unquoted raw))
    else [])

/-- What a move promises. -/
def MovePreserves (sourcePath targetPath : Path) : Except WriteError String × ConfigTree → Prop
  | (.ok _, next) =>
    next.layoutAt limit (isYaml sourcePath) targetPath = tree.layoutAt limit
      (isYaml sourcePath) sourcePath ∧
      next.includedAt limit (isYaml sourcePath) targetPath = tree.includedAt limit
        (isYaml sourcePath) sourcePath ∧
      next.held limit sourcePath = none
  | (.error _, next) =>
    next.held limit sourcePath = tree.held limit sourcePath ∧
      next.held limit targetPath = tree.held limit targetPath

/-- The text of a file can be written anew for its new place: it has no carriage return, its
directives are spelled with single blanks, and from the new place each new word leads where the old
one led. `left` is the disk without the entries at both places. -/
def FileMoves (left : ConfigTree) (sourcePath targetPath place : Path) : Prop :=
  ∀ raw, tree.textAt limit sourcePath = some raw → '\r' ∉ raw ∧
    (isYaml sourcePath = true → Canonical raw ∧
    ∀ word ∈ targetsOf raw,
      (left.volume limit).included place
        (unquoted (rewrittenWord (tree.volume limit) sourcePath targetPath word)) =
        (tree.volume limit).included (tree.resolve limit [] sourcePath) (unquoted word))

/-- From its new place a link shows what it showed. -/
def LinkMoves (next : ConfigTree) (sourcePath targetPath : Path) : Prop :=
  next.layoutAt limit (isYaml sourcePath) targetPath = tree.layoutAt limit
    (isYaml sourcePath) sourcePath ∧
    next.includedAt limit (isYaml sourcePath) targetPath = tree.includedAt limit
      (isYaml sourcePath) sourcePath

/-- What a link leads to from a directory, and what the directives behind it name, whatever stands
at two places. -/
def Apart (made : ConfigTree) (sourcePath directory old place : Path) (text : String) : Prop :=
  ∀ disk : ConfigTree, (∀ spot, spot ≠ old → spot ≠ place → disk.entry spot = made.entry spot) →
    disk.settle limit (FileTree.origin directory text) (parts text) =
        tree.settle limit (FileTree.origin directory text) (parts text) ∧
      (isYaml sourcePath = true → ∀ raw, tree.textAt limit sourcePath = some raw →
        ∀ word ∈ targetsOf raw,
        (disk.volume limit).included (tree.resolve limit [] sourcePath) (unquoted word) =
          (tree.volume limit).included (tree.resolve limit [] sourcePath) (unquoted word))

/-- No other file has the layout of this one. -/
def Lone (sourcePath : Path) : Prop :=
  ∀ path, tree.layoutAt limit (isYaml sourcePath) path = tree.layoutAt limit
    (isYaml sourcePath) sourcePath →
    tree.resolve limit [] path = tree.resolve limit [] sourcePath

end ConfigTree

namespace ConfigRepository

/-- A move gets as far as the new entry, which is to come into a directory that now stands. -/
structure Arrives (digest : List UInt8 → String) (base : Path) (limit : Nat) (permits : Permits)
    (tree : ConfigTree)
    (source target expected : String) (sourcePath targetPath : Path) (cargo : Cargo) (made : ConfigTree)
    (directory : Path) : Prop where
  checked : checkMove digest base limit tree source target expected sourcePath targetPath = .ok cargo
  makes : FileTree.makeDirectories limit tree permits.makes [] (parent targetPath) =
    (made, some directory)
  clean : ∀ part ∈ targetPath, embedsNull part = false

section Condition
variable (digest : List UInt8 → String) (base : Path) (limit : Nat) (permits : Permits)
  (tree : ConfigTree)
variable (source target expected : String) (sourcePath targetPath : Path)

/-- What a move that gets there needs. A file needs leave to finish and a text whose directives can
be written anew; a link needs leave to be read, and has to lead to its file from the new directory
as well. -/
def Movable : Prop :=
  ∀ cargo made directory,
    Arrives digest base limit permits tree source target expected sourcePath targetPath cargo made
      directory →
    match cargo with
    | .link => permits.renames = true → ∀ old text, tree.entryPlace limit sourcePath = some old →
        tree.entry old = some (.link text) →
        -- two paths may name one entry, which then stays
        if old = directory ++ [name targetPath] then permits.rereads = false
        else permits.rereads = true ∧
          tree.Apart limit made sourcePath directory old (directory ++ [name targetPath]) text ∧
          tree.settle limit (FileTree.origin directory text) (parts text) = tree.resolve limit
            [] sourcePath
    | .file _ => permits.stores = true → permits.removes = true ∧ permits.rereads = true ∧
        (tree.entryPlace limit sourcePath).isSome = true ∧
        ∀ raw, tree.textAt limit sourcePath = some raw → '\r' ∉ raw ∧
          (isYaml sourcePath = true → Canonical raw ∧
          ∀ word ∈ targetsOf raw,
            tree.Nameable (parent targetPath) directory (tree.named limit sourcePath word))

/-- A move that no coincidence helps: the new words of a file are single words, and links do not
lead to the old files by another way; a link and the directives behind it do not pass the two
entries, and its file has no copy. -/
def Regular : Prop :=
  ∀ cargo made directory,
    Arrives digest base limit permits tree source target expected sourcePath targetPath cargo made
      directory →
    match cargo with
    | .link => ∀ old text, tree.entryPlace limit sourcePath = some old →
        tree.entry old = some (.link text) →
        old ≠ directory ++ [name targetPath] →
        tree.Apart limit made sourcePath directory old (directory ++ [name targetPath]) text ∧
          tree.Lone limit sourcePath
    | .file _ => (tree.entryPlace limit sourcePath).isSome = true ∧ (isYaml sourcePath = true →
        ∀ raw, tree.textAt limit sourcePath = some raw → ∀ word ∈ targetsOf raw,
          Spelled (parent targetPath) (tree.named limit sourcePath word) ∧
          tree.Settled (tree.named limit sourcePath word) ∧
          tree.Settled (ConfigTree.climbed (parent targetPath) directory
            (tree.named limit sourcePath word) ++
            below (parent targetPath) (tree.named limit sourcePath word)))

end Condition
end ConfigRepository

/-! ## The parts of a path -/

section Parts
variable {base path : Path} {relative : String}

theorem parent_name (some_path : path ≠ []) : parent path ++ [name path] = path := by
  rw [parent, name, List.getLast?_eq_getLast_of_ne_nil some_path]
  exact List.dropLast_append_getLast some_path

/-- A path of the repository names an entry of a directory, without climbing. -/
theorem path_parts (plain : Plain base) (ok : ConfigRepository.path base relative = .ok path) :
    Plain (parent path) ∧ name path ≠ ".." ∧ path ≠ [] ∧ parent path ++ [name path] = path := by
  obtain ⟨components, inside, some_components, rfl, _⟩ := path_ok ok
  have some_path : configDirectory base ++ components ≠ [] := by simp [configDirectory]
  have all : Plain (configDirectory base ++ components) := by
    intro member
    rcases List.mem_append.mp member with member | member
    · rcases List.mem_append.mp member with member | member
      · exact plain member
      · exact absurd (List.mem_singleton.mp member) (by decide)
    · exact inside member
  have whole := parent_name some_path
  refine ⟨fun member => all ?_, fun same => all ?_, some_path, whole⟩
  · exact List.dropLast_subset _ member
  · rw [← whole, same]
    exact List.mem_append_right _ List.mem_cons_self

theorem name_mem (whole : parent path ++ [name path] = path) : name path ∈ path := by
  have member : name path ∈ parent path ++ [name path] := List.mem_append_right _ List.mem_cons_self
  rwa [whole] at member

theorem mem_splitOn {c : Char} {text : List Char} (member : c ∈ text) (other : c ≠ '/') :
    ∃ piece ∈ text.splitOn '/', c ∈ piece := by
  have whole : ['/'].intercalate (text.splitOn '/') = text := List.intercalate_splitOn '/'
  rw [← whole] at member
  exact (mem_intercalate member).resolve_left other

/-- A null byte in a path is a null byte in one of its components. -/
theorem embedsNull_parts (ok : ConfigRepository.path base relative = .ok path)
    (clean : ∀ part ∈ path, embedsNull part = false) : embedsNull relative = false := by
  by_contra null
  have member : Char.ofNat 0 ∈ relative.toList := by
    unfold embedsNull at null
    exact List.contains_iff_mem.mp (Bool.of_not_eq_false null)
  obtain ⟨piece, isPiece, member⟩ := mem_splitOn member (by decide)
  have isPart : String.ofList piece ∈ parts relative := by
    refine List.mem_filter.mpr
      ⟨List.mem_map.mpr ⟨piece, isPiece, rfl⟩, decide_eq_true ⟨fun same => ?_, fun same => ?_⟩⟩
    · rw [← String.toList_inj, String.toList_ofList] at same
      rw [same] at member
      cases member
    · rw [← String.toList_inj, String.toList_ofList] at same
      rw [same] at member
      exact absurd (List.mem_singleton.mp member) (by decide)
  have inPath : String.ofList piece ∈ path := by
    unfold ConfigRepository.path at ok
    dsimp only at ok
    split at ok
    · cases ok
    · split at ok
      · cases ok
      · cases ok
        exact List.mem_append_right _ isPart
  have plain := clean _ inPath
  unfold embedsNull at plain
  rw [String.toList_ofList] at plain
  exact Bool.eq_false_iff.mp plain (List.contains_iff_mem.mpr member)

end Parts

/-! ## The entries at both places -/

section Places
variable {tree made next : ConfigTree} {limit allowed : Nat}
  {base sourcePath targetPath directory place : Path}
variable {source : String} {current : String} {raw : List Char}

/-- What a path leads to stands behind its directory entry. -/
theorem held_of_text (stays : name sourcePath ≠ "..")
    (whole : parent sourcePath ++ [name sourcePath] = sourcePath)
    (text : tree.textAt limit sourcePath = some raw) : tree.held limit sourcePath ≠ none := by
  intro nothing
  unfold ConfigTree.held at nothing
  have leads : tree.resolve limit [] sourcePath = tree.resolve limit [] (parent sourcePath) ++
    [name sourcePath] := by
    conv_lhs => rw [← whole]
    rw [FileTree.resolve_append]
    exact FileTree.resolve_leaf stays (fun text isLink => by rw [nothing] at isLink; cases isLink)
  unfold ConfigTree.textAt at text
  rw [leads, nothing] at text
  cases text

theorem held_grown {way : Path} (grown : FileTree.Grown tree made way)
    (stands : tree.held limit sourcePath ≠ none) :
    made.held limit sourcePath = tree.held limit sourcePath := by
  unfold ConfigTree.held at stands ⊢
  rw [← FileTree.resolve_congr grown.links]
  rcases grown (tree.resolve limit [] (parent sourcePath) ++ [name sourcePath]) with same | ⟨none, _⟩
  · exact same
  · exact absurd none stands

theorem held_way (grown : FileTree.Grown tree made (tree.resolve limit [] (parent targetPath))) :
    made.held limit targetPath = tree.held limit targetPath := by
  unfold ConfigTree.held
  rw [← FileTree.resolve_congr grown.links]
  rcases grown (tree.resolve limit [] (parent targetPath) ++ [name targetPath]) with same | ⟨_,
    _, inside⟩
  · exact same
  · have longer := inside.length_le
    rw [List.length_append, List.length_singleton] at longer
    omega

theorem readText_iff {path : Path} :
    (tree.volume limit).readText (tree.resolve limit [] path) = .ok current ↔
    ∃ raw, tree.textAt limit path = some raw ∧ current = String.ofList (newlines raw) := by
  unfold Volume.readText ConfigTree.textAt ConfigTree.volume
  dsimp only
  rcases tree.entry (tree.resolve limit [] path) with _ | (_ | (_ | bytes) | text)
  · simp
  · simp
  · simp
  · cases decoded : String.fromUTF8? ⟨bytes.toArray⟩ with
    | none => simp [decoded]
    | some text => simp [decoded, eq_comm]
  · simp

theorem file_of_text (text : tree.textAt limit sourcePath = some raw) :
    ∃ content, tree.entry (tree.resolve limit [] sourcePath) = some (.file content) := by
  unfold ConfigTree.textAt at text
  split at text
  · rename_i isFile
    exact ⟨_, isFile⟩
  · cases text

/-- The links on the way to a text come to an end. -/
theorem loops_of_text (text : tree.textAt limit sourcePath = some raw) :
    (tree.volume limit).loops sourcePath = false := by
  obtain ⟨content, isFile⟩ := file_of_text text
  exact FileTree.loops_settled (FileTree.settle_plain List.not_mem_nil) (FileTree.settled_file isFile)

/-- A configuration is read if its path leads to a text. -/
theorem read_iff (isPath : ConfigRepository.path base source = .ok sourcePath) :
    ConfigRepository.read base (tree.volume limit) source = .ok current ↔
      embedsNull source = false ∧
        ∃ raw, tree.textAt limit sourcePath = some raw ∧ current = String.ofList (newlines raw) := by
  unfold ConfigRepository.read ConfigRepository.resolve
  rw [isPath]
  cases null : embedsNull source with
  | true => exact iff_of_false (fun never => nomatch never) (fun never => nomatch never.1)
  | false =>
    rw [and_iff_right rfl, ← readText_iff]
    dsimp only
    rw [if_neg Bool.noConfusion]
    constructor
    · intro done
      cases real : (tree.volume limit).resolve sourcePath with
      | error e =>
        rw [real] at done
        cases done
      | ok place =>
        rw [real] at done
        cases (volume_resolve_iff.mp real).2
        exact done
    · intro isText
      obtain ⟨raw, isRaw, _⟩ := readText_iff.mp isText
      rw [volume_resolve_iff.mpr ⟨loops_of_text isRaw, rfl⟩]
      exact isText

/-- What stands at the new place before the entry comes: nothing, or a link that leads to no
directory. -/
structure FreePlace (tree made : ConfigTree) (limit : Nat) (targetPath directory : Path) : Prop where
  same : made.entry (directory ++ [name targetPath]) = tree.entry (directory ++ [name targetPath])
  free : made.entry (directory ++ [name targetPath]) = none ∨
    made = tree ∧ ∃ text, made.entry (directory ++ [name targetPath]) = some (.link text) ∧
      made.Leaf limit (directory ++ [name targetPath]) text

theorem present_of_located {found : Path} (whole : parent targetPath ++ [name targetPath] = targetPath)
    (located : tree.locate limit [] (parent targetPath) = some directory)
    (leads : tree.locate limit directory [name targetPath] = some found)
    (stands : tree.entry found ≠ none) :
    tree.present limit targetPath = true := by
  have all : tree.locate limit [] targetPath = some found := by
    conv_lhs => rw [← whole, FileTree.locate_append, located]
    exact leads
  unfold ConfigTree.present
  rw [all]
  exact Option.isSome_iff_ne_none.mpr stands

theorem vacant_of_absent (plain : Plain (parent targetPath)) (stays : name targetPath ≠ "..")
    (whole : parent targetPath ++ [name targetPath] = targetPath)
    (absent : tree.present limit targetPath = false)
    (isMade : FileTree.makeDirectories limit tree allowed [] (parent targetPath) =
      (made, some directory)) :
    FreePlace tree made limit targetPath directory := by
  have grown := FileTree.makeDirectories_grown limit allowed tree.rooted plain
  have found := FileTree.makeDirectories_found limit allowed tree.rooted plain
  rw [isMade] at grown found
  obtain ⟨located, stands, new⟩ := found rfl
  rcases new with none | same
  · have nothing : tree.entry (directory ++ [name targetPath]) = .none := by
      refine FileTree.entry_below ?_ (List.cons_ne_nil _ _)
      rw [none]
      exact fun never => nomatch never
    have still : made.entry (directory ++ [name targetPath]) = .none := by
      rcases grown (directory ++ [name targetPath]) with same | ⟨_, _, inside⟩
      · exact same.trans nothing
      · rw [FileTree.resolve_congr grown.links, FileTree.resolve_of_locate located] at inside
        have longer := inside.length_le
        rw [List.length_append, List.length_singleton] at longer
        omega
    exact ⟨still.trans nothing.symm, .inl still⟩
  · change made = tree at same
    subst same
    refine ⟨rfl, ?_⟩
    have gone {found : Path} (leads : made.locate limit directory [name targetPath] = some found) :
        made.entry found = .none := by
      by_contra stands
      rw [present_of_located whole located leads stands] at absent
      cases absent
    cases isEntry : made.entry (directory ++ [name targetPath]) with
    | none => exact .inl rfl
    | some entry =>
      cases entry with
      | link text =>
        refine .inr ⟨rfl, text, rfl, fun found sought => ?_⟩
        rw [parent, List.dropLast_concat] at sought
        rw [gone ((FileTree.locate_link stands stays isEntry).trans sought)]
        exact fun never => nomatch never
      | directory =>
        rw [gone (FileTree.locate_directory stands stays isEntry)] at isEntry
        cases isEntry
      | file content =>
        rw [gone (FileTree.locate_leaf stands stays
          (fun text isLink => by rw [isEntry] at isLink; cases isLink))] at isEntry
        cases isEntry

theorem entryPlace_iff {old : Path} : tree.entryPlace limit sourcePath = some old ↔
    ∃ above, tree.locate limit [] (parent sourcePath) = some above ∧ above ++ [name sourcePath] = old :=
  Option.map_eq_some_iff

/-- The entry of a path that leads to a file: no directory, and a link only if it leads to none. -/
theorem entry_of_file {content : Option (List UInt8)} {above : Path} (stays : name sourcePath ≠ "..")
    (whole : parent sourcePath ++ [name sourcePath] = sourcePath)
    (file : tree.entry (tree.resolve limit [] sourcePath) = some (.file content))
    (located : tree.locate limit [] (parent sourcePath) = some above) :
    ∃ entry, tree.entry (above ++ [name sourcePath]) = some entry ∧ entry ≠ .directory ∧
      ∀ text, entry = .link text → tree.Leaf limit (above ++ [name sourcePath]) text := by
  have leads : tree.resolve limit [] sourcePath = tree.resolve limit above [name sourcePath] := by
    conv_lhs => rw [← whole]
    rw [FileTree.resolve_append, FileTree.resolve_of_locate located]
  rw [leads] at file
  cases isEntry : tree.entry (above ++ [name sourcePath]) with
  | none =>
    rw [FileTree.resolve_leaf stays (fun text isLink => by rw [isEntry] at isLink; cases isLink),
      isEntry] at file
    cases file
  | some entry =>
    refine ⟨entry, rfl, fun isDirectory => ?_, fun text isLink found sought => ?_⟩
    · subst isDirectory
      rw [FileTree.resolve_leaf stays (fun text isLink => by rw [isEntry] at isLink; cases isLink),
        isEntry] at file
      cases file
    · subst isLink
      rw [parent, List.dropLast_concat] at sought
      have step : tree.resolve limit above [name sourcePath] =
          tree.settle limit (FileTree.origin above text) (parts text) := by
        change tree.advance (tree.settle limit) above (name sourcePath) = _
        rw [FileTree.advance, if_neg stays, isEntry]
      rw [step, FileTree.settle_of_seek sought] at file
      rw [file]
      simp

/-- A tree with other entries at two places that lead to no directory finds the directories where
they were. -/
theorem locate_changed {first second above names : Path}
    (same : ∀ other, other ≠ first → other ≠ second → next.entry other = made.entry other)
    (firstLeaf : made.entry first ≠ some .directory ∧
      ∀ text, made.entry first = some (.link text) → made.Leaf limit first text)
    (secondLeaf : made.entry second ≠ some .directory ∧
      ∀ text, made.entry second = some (.link text) → made.Leaf limit second text)
    (located : made.locate limit [] names = some above) (stands : made.entry above = some .directory) :
    next.locate limit [] names = some above := by
  refine FileTree.locate_kept (fun other isDirectory => ?_) (fun other text isLink => ?_) located stands
  · rw [same other (fun isFirst => firstLeaf.1 (isFirst ▸ isDirectory))
      (fun isSecond => secondLeaf.1 (isSecond ▸ isDirectory))]
    exact isDirectory
  · by_cases isFirst : other = first
    · subst isFirst
      exact .inr (firstLeaf.2 text isLink)
    · by_cases isSecond : other = second
      · subst isSecond
        exact .inr (secondLeaf.2 text isLink)
      · exact .inl ((same other isFirst isSecond).trans isLink)

theorem FreePlace.leaf (vacant : FreePlace tree made limit targetPath directory) :
    made.entry (directory ++ [name targetPath]) ≠ some .directory ∧
      ∀ text, made.entry (directory ++ [name targetPath]) = some (.link text) →
        made.Leaf limit (directory ++ [name targetPath]) text := by
  rcases vacant.free with nothing | ⟨_, text, isLink, leaf⟩
  · rw [nothing]
    exact ⟨(fun never => nomatch never), fun text never => nomatch never⟩
  · rw [isLink]
    refine ⟨(fun never => nomatch never), fun other same => ?_⟩
    cases same
    exact leaf

end Places

/-! ## The text that is moved -/

section Texts
variable {disk : Volume} {sourcePath targetPath : Path} {group : List String} {part : List Char}

theorem relocateWord_ok {raw text : String}
    (done : relocateWord disk sourcePath targetPath raw = .ok text) :
    text = rewrittenWord disk sourcePath targetPath raw ∧
      ∃ file, disk.included sourcePath (unquoted raw) = .ok file := by
  unfold relocateWord at done
  split at done
  · cases done
  · rename_i file included
    exact ⟨(Except.ok.inj done).symm, file, included⟩

theorem relocateWords_ok {texts : List String}
    (done : group.mapM (relocateWord disk sourcePath targetPath) = .ok texts) :
    texts = group.map (rewrittenWord disk sourcePath targetPath) ∧
      ∀ raw ∈ group, ∃ file, disk.included sourcePath (unquoted raw) = .ok file := by
  induction group generalizing texts with
  | nil =>
    cases done
    exact ⟨rfl, fun raw never => nomatch never⟩
  | cons raw rest ih =>
    rw [List.mapM_cons] at done
    obtain ⟨text, isText, done⟩ := except_bind done
    obtain ⟨later, isLater, done⟩ := except_bind done
    cases done
    obtain ⟨same, found⟩ := relocateWord_ok isText
    obtain ⟨sameLater, foundLater⟩ := ih isLater
    rw [List.map_cons, same, sameLater]
    refine ⟨rfl, fun word member => ?_⟩
    rcases List.mem_cons.mp member with rfl | member
    · exact found
    · exact foundLater word member

theorem relocate_ok (done : relocate disk sourcePath targetPath group = .ok part) :
    part = directive (group.map (rewrittenWord disk sourcePath targetPath)) ∧
      ∀ raw ∈ group, ∃ file, disk.included sourcePath (unquoted raw) = .ok file := by
  unfold relocate at done
  cases mapped : group.mapM (relocateWord disk sourcePath targetPath) with
  | error e =>
    rw [mapped] at done
    cases done
  | ok texts =>
    rw [mapped] at done
    cases done
    obtain ⟨same, found⟩ := relocateWords_ok mapped
    rw [same]
    exact ⟨rfl, found⟩

/-- A text whose directives are written anew without an exception. -/
theorem substituted_relocate {text content : List Char}
    (done : substituted includeMatch (relocate disk sourcePath targetPath) text = .ok content) :
    content = writtenAnew (rewrittenWord disk sourcePath targetPath) text ∧
      ∀ raw ∈ targetsOf text, ∃ file, disk.included sourcePath (unquoted raw) = .ok file := by
  have fine : ∀ group ∈ tokens (pieces includeMatch 0 text), relocate disk sourcePath targetPath group =
      .ok (directive (group.map (rewrittenWord disk sourcePath targetPath))) := by
    intro group isGroup
    obtain ⟨part, replaced⟩ := substituted_replaced done group isGroup
    rw [replaced, (relocate_ok replaced).1]
  refine ⟨(Except.ok.inj ((substituted_ok fine).symm.trans done)).symm, fun raw member => ?_⟩
  rw [targetsOf_pieces] at member
  obtain ⟨group, isGroup, member⟩ := List.mem_flatten.mp member
  exact (relocate_ok (fine group isGroup)).2 raw member

end Texts

section Checks
variable {digest : List UInt8 → String} {base sourcePath targetPath : Path} {limit : Nat}
  {tree : ConfigTree}
variable {source target expected : String} {raw content : List Char}

/-- What a check that lets a configuration go says about it. -/
theorem checkMove_ok {cargo : Cargo} (isSource : ConfigRepository.path base source = .ok sourcePath)
    (checked : ConfigRepository.checkMove digest base limit tree source target expected sourcePath
      targetPath = .ok cargo) :
    ∃ raw, tree.textAt limit sourcePath = some raw ∧
      (embedsNull target = false → tree.present limit targetPath = false) ∧
      (match cargo with
      | .link => tree.isSymlink limit sourcePath = true
      | .file content => tree.isSymlink limit sourcePath = false ∧
          (content = if parent sourcePath ≠ parent targetPath ∧ isYaml sourcePath = true then
            writtenAnew (rewrittenWord (tree.volume limit) sourcePath targetPath) (newlines raw)
          else newlines raw) ∧
          (parent sourcePath ≠ parent targetPath → isYaml sourcePath = true → ∀ word ∈ targetsOf raw,
            ∃ file, (tree.volume limit).included sourcePath (unquoted word) = .ok file)) := by
  unfold ConfigRepository.checkMove at checked
  split at checked
  · cases checked
  · rename_i current read
    obtain ⟨_, raw, isText, rfl⟩ := (read_iff isSource).mp read
    refine ⟨raw, isText, ?_⟩
    rw [String.toList_ofList] at checked
    split at checked
    · cases checked
    · split at checked
      · cases checked
      · rename_i absent
        refine ⟨fun clean => Bool.eq_false_iff.mpr fun stands => absent ⟨clean, stands⟩, ?_⟩
        split at checked
        · rename_i isLink
          cases checked
          exact isLink
        · rename_i isFile
          have isFile := Bool.eq_false_iff.mpr isFile
          split at checked
          · rename_i rewrites
            split at checked
            · cases checked
            · rename_i content done
              cases checked
              dsimp only
              rw [if_pos rewrites]
              obtain ⟨same, found⟩ := substituted_relocate done
              rw [(newlines_readAs raw).targets] at found
              exact ⟨isFile, same, fun _ _ => found⟩
          · rename_i rewrites
            cases checked
            dsimp only
            rw [if_neg rewrites]
            exact ⟨isFile, rfl, fun elsewhere yaml => absurd ⟨elsewhere, yaml⟩ rewrites⟩

end Checks

section Files
variable {tree left next : ConfigTree} {limit : Nat} {sourcePath targetPath place : Path}
  {raw content : List Char}

theorem included_congr
    (links : ∀ spot text, left.entry spot = some (.link text) ↔ next.entry spot = some (.link text))
    (directories : ∀ spot, left.entry spot = some .directory ↔ next.entry spot = some .directory)
    (path : Path) (relative : String) :
    (left.volume limit).included path relative = (next.volume limit).included path relative := by
  have real : (left.volume limit).realpath = (next.volume limit).realpath :=
    congrFun (FileTree.resolve_congr links) []
  have loops : (left.volume limit).loops = (next.volume limit).loops := by
    funext path
    change left.loops (limit + 1) [] ((left.volume limit).realpath path) = _
    rw [real, FileTree.loops_congr links directories]
    rfl
  unfold Volume.included Volume.resolve
  rw [real, loops]

/-- A text that was written anew shows what the old one showed exactly if it could be. -/
theorem fileMoves_iff (isText : tree.textAt limit sourcePath = some raw)
    (isMoved : next.textAt limit targetPath = some content)
    (isContent : content = if isYaml sourcePath = true then
      writtenAnew (rewrittenWord (tree.volume limit) sourcePath targetPath) (newlines raw)
        else newlines raw)
    (solid : isYaml sourcePath = true →
      ∀ word ∈ targetsOf raw, SolidWord
      (rewrittenWord (tree.volume limit) sourcePath targetPath word).toList)
    (links : ∀ spot text, left.entry spot = some (.link text) ↔ next.entry spot = some (.link text))
    (directories : ∀ spot, left.entry spot = some .directory ↔ next.entry spot = some .directory)
    (leads : next.resolve limit [] targetPath = place) :
    next.layoutAt limit (isYaml sourcePath) targetPath = tree.layoutAt limit
    (isYaml sourcePath) sourcePath ∧
      next.includedAt limit (isYaml sourcePath) targetPath = tree.includedAt limit
      (isYaml sourcePath) sourcePath ↔
      tree.FileMoves limit left sourcePath targetPath place := by
  unfold ConfigTree.layoutAt ConfigTree.includedAt ConfigTree.FileMoves
  rw [isText, isMoved, Option.map_some, Option.map_some, Option.map_some, Option.map_some,
    Option.some.injEq,
    Option.some.injEq, leads]
  have only : (∀ other, some raw = some other → '\r' ∉ other ∧
    (isYaml sourcePath = true → Canonical other ∧
      ∀ word ∈ targetsOf other,
        (left.volume limit).included place
          (unquoted (rewrittenWord (tree.volume limit) sourcePath targetPath word)) =
          (tree.volume limit).included (tree.resolve limit [] sourcePath) (unquoted word))) ↔
      '\r' ∉ raw ∧ (isYaml sourcePath = true → Canonical raw ∧ ∀ word ∈ targetsOf raw,
        (left.volume limit).included place
          (unquoted (rewrittenWord (tree.volume limit) sourcePath targetPath word)) =
          (tree.volume limit).included (tree.resolve limit [] sourcePath) (unquoted word)) :=
    ⟨fun all => all raw rfl, fun here other same => Option.some.inj same ▸ here⟩
  rw [only]
  cases yaml : isYaml sourcePath with
  | false =>
    rw [yaml, if_neg Bool.noConfusion] at isContent
    simp only [isContent, and_true, Bool.false_eq_true, false_imp_iff, if_false]
    rw [(List.map_injective_iff.mpr (Option.some_injective Char)).eq_iff, newlines_eq_iff]
  | true =>
    have solid := solid yaml
    have sameTargets : targetsOf (newlines raw) = targetsOf raw := (newlines_readAs raw).targets
    rw [← sameTargets] at solid
    rw [yaml, if_pos rfl] at isContent
    have targets := targetsOf_writtenAnew solid
    rw [← isContent, sameTargets] at targets
    simp only [if_true, true_imp_iff]
    rw [isContent, layout_newlines_iff solid, ← isContent, targets, List.map_map, List.map_inj_left,
      and_assoc]
    refine and_congr_right fun _ => and_congr_right fun _ => forall₂_congr fun word _ => ?_
    rw [included_congr links directories]
    rfl

theorem reread_cases {base : Path} (permits : Permits) (next : ConfigTree) {target : String}
    (isTarget : ConfigRepository.path base target = .ok targetPath)
    (clean : embedsNull target = false) :
    (permits.rereads = true ∧ next.textAt limit targetPath ≠ none ∧
      ∃ current, ConfigRepository.reread base limit permits next target = (.ok current, next)) ∨
    (¬ (permits.rereads = true ∧ next.textAt limit targetPath ≠ none) ∧
      ∃ e, ConfigRepository.reread base limit permits next target = (.error e, next)) := by
  unfold ConfigRepository.reread
  cases permits.rereads with
  | false => exact .inr ⟨fun never => (nomatch never.1), _, rfl⟩
  | true =>
    rw [if_pos rfl]
    cases read : ConfigRepository.read base (next.volume limit) target with
    | ok current =>
      obtain ⟨_, raw, isText, _⟩ := (read_iff isTarget).mp read
      refine .inl ⟨rfl, ?_, current, rfl⟩
      rw [isText]
      exact fun never => nomatch never
    | error e =>
      refine .inr ⟨fun ⟨_, some_text⟩ => ?_, _, rfl⟩
      obtain ⟨raw, isText⟩ := Option.ne_none_iff_exists'.mp some_text
      rw [(read_iff isTarget).mpr ⟨clean, raw, isText, rfl⟩] at read
      cases read

/-- Once the old entry is gone, the configuration is preserved if it is read back and shows what it
showed. -/
theorem reread_preserves_iff {base : Path} {permits : Permits} {target : String}
    (isTarget : ConfigRepository.path base target = .ok targetPath) (clean : embedsNull target = false)
    (readable : ∃ raw, tree.textAt limit sourcePath = some raw)
    (stood : tree.held limit sourcePath ≠ none)
    (gone : next.held limit sourcePath = none) :
    tree.MovePreserves limit sourcePath targetPath
    (ConfigRepository.reread base limit permits next target) ↔
      permits.rereads = true ∧ tree.LinkMoves limit next sourcePath targetPath := by
  rcases reread_cases permits next isTarget clean with ⟨rereads, _, current, done⟩ | ⟨refused, e, done⟩
  · rw [done, and_iff_right rereads]
    exact ⟨fun ⟨layouts, includes, _⟩ => ⟨layouts, includes⟩, fun ⟨layouts, includes⟩ =>
      ⟨layouts, includes, gone⟩⟩
  · rw [done]
    refine iff_of_false (fun holds => stood (holds.1.symm.trans gone)) (fun ⟨rereads, layouts, _⟩ => ?_)
    have nothing : next.textAt limit targetPath = none := by
      by_contra some_text
      exact refused ⟨rereads, some_text⟩
    obtain ⟨raw, isText⟩ := readable
    unfold ConfigTree.layoutAt at layouts
    rw [nothing, isText] at layouts
    cases layouts

end Files

/-! ## The moves -/

/-- The disk when the new entry is about to come. -/
structure Ready (tree made : ConfigTree) (limit : Nat) (sourcePath targetPath directory : Path) :
    Prop where
  grown : FileTree.Grown tree made (tree.resolve limit [] (parent targetPath))
  located : made.locate limit [] (parent targetPath) = some directory
  stands : made.entry directory = some .directory
  vacant : FreePlace tree made limit targetPath directory
  sourceStays : name sourcePath ≠ ".."
  sourceWhole : parent sourcePath ++ [name sourcePath] = sourcePath
  targetStays : name targetPath ≠ ".."
  targetWhole : parent targetPath ++ [name targetPath] = targetPath
  readable : ∃ raw, tree.textAt limit sourcePath = some raw

namespace Ready
variable {tree made next : ConfigTree} {limit : Nat}
  {base sourcePath targetPath directory old : Path} {permits : Permits}
variable {target : String}

theorem of_made {allowed : Nat} {source : String} (plain : Plain base)
    (isSource : ConfigRepository.path base source = .ok sourcePath)
    (isTarget : ConfigRepository.path base target = .ok targetPath)
    (absent : tree.present limit targetPath = false)
    (readable : ∃ raw, tree.textAt limit sourcePath = some raw)
    (isMade : FileTree.makeDirectories limit tree allowed [] (parent targetPath) =
      (made, some directory)) :
    Ready tree made limit sourcePath targetPath directory := by
  obtain ⟨_, sourceStays, _, sourceWhole⟩ := path_parts plain isSource
  obtain ⟨plainTarget, targetStays, _, targetWhole⟩ := path_parts plain isTarget
  have grown := FileTree.makeDirectories_grown limit allowed tree.rooted plainTarget
  have found := FileTree.makeDirectories_found limit allowed tree.rooted plainTarget
  rw [isMade] at grown found
  obtain ⟨located, stands, _⟩ := found rfl
  exact ⟨grown, located, stands, vacant_of_absent plainTarget targetStays targetWhole absent isMade,
    sourceStays,
    sourceWhole, targetStays, targetWhole, readable⟩

theorem links (ready : Ready tree made limit sourcePath targetPath directory) :
    tree.resolve limit = made.resolve limit :=
  FileTree.resolve_congr ready.grown.links

theorem file (ready : Ready tree made limit sourcePath targetPath directory) :
    ∃ content, made.entry (made.resolve limit [] sourcePath) = some (.file content) := by
  obtain ⟨raw, isText⟩ := ready.readable
  obtain ⟨content, isFile⟩ := file_of_text isText
  rw [← ready.links]
  exact ⟨content, ready.grown.entry isFile⟩

theorem heldTarget (ready : Ready tree made limit sourcePath targetPath directory) :
    tree.held limit targetPath = made.entry (directory ++ [name targetPath]) := by
  unfold ConfigTree.held
  rw [ready.links, FileTree.resolve_of_locate ready.located, ready.vacant.same]

theorem heldSource (ready : Ready tree made limit sourcePath targetPath directory) :
    tree.held limit sourcePath ≠ none := by
  obtain ⟨raw, isText⟩ := ready.readable
  exact held_of_text ready.sourceStays ready.sourceWhole isText

/-- Until the new entry comes both paths hold what they held. -/
theorem still (ready : Ready tree made limit sourcePath targetPath directory) (e : WriteError) :
    tree.MovePreserves limit sourcePath targetPath (.error e, made) :=
  ⟨held_grown ready.grown ready.heldSource, held_way ready.grown⟩

/-- The old entry where the system finds one. -/
theorem source (ready : Ready tree made limit sourcePath targetPath directory)
    (isOld : made.entryPlace limit sourcePath = some old) :
    ∃ above entry, made.locate limit [] (parent sourcePath) = some above ∧ above ++
    [name sourcePath] = old ∧
      made.entry above = some .directory ∧ made.entry old = some entry ∧ entry ≠ .directory ∧
      ∀ text, entry = .link text → made.Leaf limit old text := by
  obtain ⟨above, located, rfl⟩ := entryPlace_iff.mp isOld
  obtain ⟨content, isFile⟩ := ready.file
  obtain ⟨entry, stands, leaf, links⟩ :=
    entry_of_file ready.sourceStays ready.sourceWhole isFile located
  refine ⟨above, entry, located, rfl, made.nested above (name sourcePath) ?_, stands, leaf, links⟩
  rw [stands]
  exact fun never => nomatch never

/-- The directories of both paths stay where they are when the entries at both places change. -/
theorem located_changed (ready : Ready tree made limit sourcePath targetPath directory)
    {above names : Path}
    (isOld : made.entryPlace limit sourcePath = some old)
    (same : ∀ other, other ≠ directory ++ [name targetPath] → other ≠ old →
      next.entry other = made.entry other)
    (located : made.locate limit [] names = some above) (stands : made.entry above = some .directory) :
    next.locate limit [] names = some above := by
  obtain ⟨_, entry, _, _, _, isEntry, leaf, links⟩ := ready.source isOld
  refine locate_changed same ready.vacant.leaf ⟨?_, fun text isLink => ?_⟩ located stands
  · rw [isEntry]
    exact fun isDirectory => leaf (Option.some.inj isDirectory)
  · rw [isEntry] at isLink
    exact links text (Option.some.inj isLink)

theorem heldSource_gone (ready : Ready tree made limit sourcePath targetPath directory)
    (isOld : made.entryPlace limit sourcePath = some old)
    (same : ∀ other, other ≠ directory ++ [name targetPath] → other ≠ old →
      next.entry other = made.entry other)
    (gone : next.entry old = none) : next.held limit sourcePath = none := by
  obtain ⟨above, _, located, isPlace, stands, _⟩ := ready.source isOld
  unfold ConfigTree.held
  rw [FileTree.resolve_of_locate (ready.located_changed isOld same located stands), isPlace, gone]

theorem put_entry (ready : Ready tree made limit sourcePath targetPath directory)
    (entry : Entry (Option (List UInt8)))
    (other : Path) : (made.put (directory ++ [name targetPath]) entry).entry other =
      if other = directory ++ [name targetPath] then some entry else made.entry other := by
  refine FileTree.entry_put entry (by simp) ready.vacant.leaf.1 ?_ other
  rw [parent, List.dropLast_concat]
  exact ready.stands

/-- A link that is moved onto itself is read as before. -/
theorem same_text (ready : Ready tree made limit sourcePath targetPath directory)
    (isOld : made.entryPlace limit sourcePath = some (directory ++ [name targetPath])) :
    made.textAt limit targetPath ≠ none := by
  obtain ⟨above, located, same⟩ := entryPlace_iff.mp isOld
  obtain ⟨rfl, names⟩ := List.append_inj' same rfl
  obtain ⟨raw, isText⟩ := ready.readable
  obtain ⟨content, isFile⟩ := file_of_text isText
  have leads : made.resolve limit [] targetPath = tree.resolve limit [] sourcePath := by
    rw [ready.links]
    conv_lhs => rw [← ready.targetWhole, FileTree.resolve_append,
      FileTree.resolve_of_locate ready.located]
    conv_rhs => rw [← ready.sourceWhole, FileTree.resolve_append,
      FileTree.resolve_of_locate located, names]
  have sameText : made.textAt limit targetPath = tree.textAt limit sourcePath := by
    unfold ConfigTree.textAt
    rw [leads, ready.grown.entry isFile, isFile]
  rw [sameText, isText]
  exact fun never => nomatch never

/-- An entry that the system finds before the move is found when the directories are made. -/
theorem found (ready : Ready tree made limit sourcePath targetPath directory)
    (isOld : tree.entryPlace limit sourcePath = some old) :
    made.entryPlace limit sourcePath = some old ∧ ∃ entry, tree.entry old = some entry ∧
      made.entry old = some entry := by
  obtain ⟨above, located, rfl⟩ := entryPlace_iff.mp isOld
  obtain ⟨raw, isText⟩ := ready.readable
  obtain ⟨content, isFile⟩ := file_of_text isText
  obtain ⟨entry, isEntry, _⟩ := entry_of_file ready.sourceStays ready.sourceWhole isFile located
  have stands : tree.entry above = some .directory := by
    refine tree.nested above (name sourcePath) ?_
    rw [isEntry]
    exact fun never => nomatch never
  have kept : made.locate limit [] (parent sourcePath) = some above :=
    FileTree.locate_kept (fun _ => ready.grown.entry)
      (fun _ _ isLink => .inl (ready.grown.entry isLink)) located stands
  exact ⟨entryPlace_iff.mpr ⟨above, kept, rfl⟩, entry, isEntry, ready.grown.entry isEntry⟩

theorem old_of_symlink (ready : Ready tree made limit sourcePath targetPath directory)
    (isLink : tree.isSymlink limit sourcePath = true) :
    ∃ old text, tree.entryPlace limit sourcePath = some old ∧ tree.entry old = some (.link text) ∧
      made.entryPlace limit sourcePath = some old ∧ made.entry old = some (.link text) := by
  unfold ConfigTree.isSymlink at isLink
  split at isLink
  · rename_i text isEntry
    obtain ⟨old, isOld, isEntry⟩ := Option.bind_eq_some_iff.mp isEntry
    obtain ⟨isFound, entry, isThere, isHere⟩ := ready.found isOld
    cases Option.some.inj (isEntry.symm.trans isThere)
    exact ⟨old, text, isOld, isEntry, isFound, isHere⟩
  · cases isLink

/-- When a moved link preserves the configuration. -/
theorem renameLink_iff (ready : Ready tree made limit sourcePath targetPath directory)
    (isTarget : ConfigRepository.path base target = .ok targetPath) (clean : embedsNull target = false)
    (isLink : tree.isSymlink limit sourcePath = true) :
    tree.MovePreserves limit sourcePath targetPath
        (ConfigRepository.renameLink base limit permits made target sourcePath
          (directory ++ [name targetPath])) ↔
      (permits.renames = true → ∃ old entry, made.entryPlace limit sourcePath = some old ∧
        made.entry old = some entry ∧
        if old = directory ++ [name targetPath] then permits.rereads = false
        else permits.rereads = true ∧
          tree.LinkMoves limit
          (made.renamed old (directory ++ [name targetPath]) entry) sourcePath targetPath) := by
  obtain ⟨old, text, _, _, isOld, isEntry⟩ := ready.old_of_symlink isLink
  generalize Entry.link text = entry at isEntry
  have only : (∃ old entry, made.entryPlace limit sourcePath = some old ∧ made.entry old = some entry ∧
        if old = directory ++ [name targetPath] then permits.rereads = false
        else permits.rereads = true ∧
          tree.LinkMoves limit
            (made.renamed old (directory ++ [name targetPath]) entry) sourcePath targetPath) ↔
      if old = directory ++ [name targetPath] then permits.rereads = false
      else permits.rereads = true ∧
        tree.LinkMoves limit
          (made.renamed old (directory ++ [name targetPath]) entry) sourcePath targetPath := by
    constructor
    · rintro ⟨other, otherEntry, isOther, isOtherEntry, holds⟩
      cases Option.some.inj (isOld.symm.trans isOther)
      cases Option.some.inj (isEntry.symm.trans isOtherEntry)
      exact holds
    · exact fun holds => ⟨old, entry, isOld, isEntry, holds⟩
  rw [only]
  unfold ConfigRepository.renameLink
  rw [isOld]
  dsimp only
  rw [isEntry]
  dsimp only
  cases permits.renames with
  | false => exact iff_of_true (ready.still _) (fun never => nomatch never)
  | true =>
    rw [if_pos rfl, imp_iff_right rfl]
    by_cases same : old = directory ++ [name targetPath]
    · have itself : made.renamed old (directory ++ [name targetPath]) entry = made := if_pos same
      rw [itself, if_pos same]
      rcases reread_cases permits made isTarget clean with ⟨rereads, _, current,
        done⟩ | ⟨refused, e, done⟩
      · rw [done, rereads]
        refine iff_of_false (fun holds => ?_) (fun never => nomatch never)
        exact ready.heldSource ((ready.still (.raised .os)).1.symm.trans holds.2.2)
      · rw [done]
        refine iff_of_true (ready.still e) ?_
        exact Bool.eq_false_iff.mpr (fun rereads => refused ⟨rereads, ready.same_text (same ▸ isOld)⟩)
    · have moved : made.renamed old (directory ++ [name targetPath]) entry =
          (made.put (directory ++ [name targetPath]) entry).remove old := if_neg same
      rw [moved, if_neg same]
      obtain ⟨_, _, _, _, _, isEntry', leaf, _⟩ := ready.source isOld
      cases Option.some.inj (isEntry.symm.trans isEntry')
      have putLeaf : (made.put (directory ++ [name targetPath]) entry).entry old ≠ some .directory := by
        rw [ready.put_entry, if_neg same, isEntry]
        exact fun isDirectory => leaf (Option.some.inj isDirectory)
      have entries := FileTree.entry_remove putLeaf
      refine reread_preserves_iff isTarget clean ready.readable ready.heldSource
        (ready.heldSource_gone isOld ?_ ?_)
      · intro other otherPlace otherOld
        rw [entries, if_neg otherOld, ready.put_entry, if_neg otherPlace]
      · rw [entries, if_pos rfl]

/-- After the new file has come, an error breaks the promise. -/
theorem stored_broken (ready : Ready tree made limit sourcePath targetPath directory)
    {content : Option (List UInt8)}
    (located : next.locate limit [] (parent targetPath) = some directory)
    (isNew : next.entry (directory ++ [name targetPath]) = some (.file content)) (e : WriteError) :
    ¬ tree.MovePreserves limit sourcePath targetPath (.error e, next) := by
  intro holds
  have held : next.held limit targetPath = some (.file content) := by
    unfold ConfigTree.held
    rw [FileTree.resolve_of_locate located, isNew]
  have before := held.symm.trans (holds.2.trans ready.heldTarget)
  rcases ready.vacant.free with nothing | ⟨_, text, isLink, _⟩
  · rw [nothing] at before
    cases before
  · rw [isLink] at before
    cases before

/-- The old entry of a file is another than the new one. -/
theorem old_ne_place (ready : Ready tree made limit sourcePath targetPath directory)
    (isFile : tree.isSymlink limit sourcePath = false)
    (isOld : made.entryPlace limit sourcePath = some old) :
    old ≠ directory ++ [name targetPath] := by
  rintro rfl
  obtain ⟨_, entry, _, _, _, isEntry, _⟩ := ready.source isOld
  rcases ready.vacant.free with nothing | ⟨same, text, isLink, _⟩
  · rw [nothing] at isEntry
    cases isEntry
  · have isSymlink : tree.isSymlink limit sourcePath = true := by
      unfold ConfigTree.isSymlink
      rw [← same, isOld, Option.bind_some, isLink]
    rw [isFile] at isSymlink
    cases isSymlink

theorem stored_located (ready : Ready tree made limit sourcePath targetPath directory)
    (content : Option (List UInt8))
    {above names : Path} (located : made.locate limit [] names = some above)
    (stands : made.entry above = some .directory) :
    (made.put (directory ++ [name targetPath]) (.file content)).locate limit [] names = some above := by
  refine locate_changed (fun other otherPlace _ =>
    ?_) ready.vacant.leaf ready.vacant.leaf located stands
  rw [ready.put_entry, if_neg otherPlace]

/-- The system finds the old entry beside the new file exactly if it found it before. -/
theorem stored_source (ready : Ready tree made limit sourcePath targetPath directory)
    {content : Option (List UInt8)}
    (isOld : ConfigTree.entryPlace
      (made.put (directory ++ [name targetPath]) (.file content)) limit sourcePath = some old)
    (stands : (made.put (directory ++ [name targetPath]) (.file content)).entry old ≠ none) :
    made.entryPlace limit sourcePath = some old := by
  obtain ⟨above, located, rfl⟩ := entryPlace_iff.mp isOld
  have isDirectory := FileTree.nested _ above (name sourcePath) stands
  refine entryPlace_iff.mpr ⟨above, ?_, rfl⟩
  refine FileTree.locate_kept (fun other isDirectory => ?_) (fun other text isLink =>
    .inl ?_) located isDirectory
  · rw [ready.put_entry] at isDirectory
    split at isDirectory
    · cases isDirectory
    · exact isDirectory
  · rw [ready.put_entry] at isLink
    split at isLink
    · cases isLink
    · exact isLink

/-- When a moved file preserves the configuration. -/
theorem unlinkSource_iff (ready : Ready tree made limit sourcePath targetPath directory)
    {raw content : List Char}
    (isTarget : ConfigRepository.path base target = .ok targetPath) (clean : embedsNull target = false)
    (isFile : tree.isSymlink limit sourcePath = false)
    (isText : tree.textAt limit sourcePath = some raw)
    (isContent : content = if isYaml sourcePath = true then
      writtenAnew (rewrittenWord (tree.volume limit) sourcePath targetPath) (newlines raw)
        else newlines raw)
    (solid : isYaml sourcePath = true →
      ∀ word ∈ targetsOf raw, SolidWord
      (rewrittenWord (tree.volume limit) sourcePath targetPath word).toList) :
    tree.MovePreserves limit sourcePath targetPath (ConfigRepository.unlinkSource base limit permits
        (made.put (directory ++ [name targetPath])
          (.file (some (String.ofList content).toUTF8.data.toList)))
        target sourcePath) ↔
      permits.removes = true ∧ permits.rereads = true ∧
        ∃ old, made.entryPlace limit sourcePath = some old ∧
        tree.FileMoves limit
        ((made.remove (directory ++ [name targetPath])).remove old) sourcePath targetPath
          (directory ++ [name targetPath]) := by
  generalize isBytes : some (String.ofList content).toUTF8.data.toList = bytes
  have entries := ready.put_entry (.file bytes)
  have isNew : (made.put (directory ++ [name targetPath]) (.file bytes)).entry
    (directory ++ [name targetPath]) =
      some (.file bytes) := by
    rw [entries, if_pos rfl]
  have broken := ready.stored_broken (ready.stored_located bytes ready.located ready.stands) isNew
  cases isOld : made.entryPlace limit sourcePath with
  | none =>
    refine iff_of_false ?_ (fun ⟨_, _, old, never, _⟩ => nomatch never)
    unfold ConfigRepository.unlinkSource
    split
    · exact broken _
    · rename_i old isStored
      split
      · rename_i removable
        rw [ready.stored_source isStored (Option.isSome_iff_ne_none.mp removable.2.1)] at isOld
        cases isOld
      · exact broken _
  | some old =>
    obtain ⟨above, entry, located, isPlace, stands, isEntry, leaf, _⟩ := ready.source isOld
    have other := ready.old_ne_place isFile isOld
    have isStored :
        ConfigTree.entryPlace
          (made.put (directory ++ [name targetPath]) (.file bytes)) limit sourcePath = some old :=
      entryPlace_iff.mpr ⟨above, ready.stored_located bytes located stands, isPlace⟩
    have storedEntry : (made.put (directory ++ [name targetPath]) (.file bytes)).entry old =
      some entry := by
      rw [entries, if_neg other, isEntry]
    have removable : (made.put (directory ++ [name targetPath]) (.file bytes)).isDirectory old =
      false := by
      refine Bool.eq_false_iff.mpr fun isDirectory => ?_
      rw [FileTree.isDirectory_iff, storedEntry] at isDirectory
      exact leaf (Option.some.inj isDirectory)
    unfold ConfigRepository.unlinkSource
    rw [isStored]
    dsimp only
    rw [storedEntry, removable]
    cases permits.removes with
    | false => exact iff_of_false (broken _) (fun never => nomatch never.1)
    | true =>
      rw [if_pos ⟨rfl, rfl, rfl⟩, and_iff_right rfl]
      have nextEntries := FileTree.entry_remove (Bool.eq_false_iff.mp removable ∘
        (FileTree.isDirectory_iff _).mpr)
      have without := FileTree.entry_remove ready.vacant.leaf.1
      have leftLeaf : (made.remove (directory ++ [name targetPath])).entry old ≠ some .directory := by
        rw [without, if_neg other, isEntry]
        exact fun isDirectory => leaf (Option.some.inj isDirectory)
      have leftEntries := FileTree.entry_remove leftLeaf
      generalize isNext : FileTree.remove
        (made.put (directory ++ [name targetPath]) (.file bytes)) old = next
        at nextEntries ⊢
      generalize isLeft : (made.remove (directory ++ [name targetPath])).remove old =
        left at leftEntries
      have same : ∀ spot, spot ≠ directory ++ [name targetPath] → spot ≠ old →
        next.entry spot = made.entry spot :=
        fun spot otherPlace otherOld => by rw [nextEntries, if_neg otherOld, entries, if_neg otherPlace]
      have isPlaced : next.entry (directory ++ [name targetPath]) = some (.file bytes) := by
        rw [nextEntries, if_neg other.symm, isNew]
      have leads : next.resolve limit [] targetPath = directory ++ [name targetPath] := by
        conv_lhs => rw [← ready.targetWhole, FileTree.resolve_append,
          FileTree.resolve_of_locate (ready.located_changed isOld same ready.located ready.stands)]
        exact FileTree.resolve_leaf ready.targetStays
          (fun text isLink => by rw [isPlaced] at isLink; cases isLink)
      have isMoved : ConfigTree.textAt next limit targetPath = some content := by
        unfold ConfigTree.textAt
        rw [leads, isPlaced, ← isBytes]
        dsimp only
        rw [fromUTF8?_bytes, Option.map_some, String.toList_ofList]
      have links : ∀ spot text, left.entry spot = some (.link text) ↔
        next.entry spot = some (.link text) := by
        intro spot text
        rw [leftEntries, nextEntries, without, entries]
        split
        · exact Iff.rfl
        · split
          · exact iff_of_false (fun never => nomatch never) (fun never => nomatch never)
          · exact Iff.rfl
      have directories : ∀ spot, left.entry spot = some .directory ↔
        next.entry spot = some .directory := by
        intro spot
        rw [leftEntries, nextEntries, without, entries]
        split
        · exact Iff.rfl
        · split
          · exact iff_of_false (fun never => nomatch never) (fun never => nomatch never)
          · exact Iff.rfl
      refine (reread_preserves_iff isTarget clean ready.readable ready.heldSource
        (ready.heldSource_gone isOld same (by rw [nextEntries, if_pos rfl]))).trans
          (and_congr_right fun _ => ?_)
      refine (fileMoves_iff isText isMoved isContent solid links directories leads).trans
        ⟨fun moves => ⟨old, rfl, isLeft ▸ moves⟩, ?_⟩
      rintro ⟨_, same, moves⟩
      cases Option.some.inj same
      exact isLeft ▸ moves

/-! ### Links -/

theorem renamed_entry (ready : Ready tree made limit sourcePath targetPath directory)
    (isOld : tree.entryPlace limit sourcePath = some old) {text : String}
    (isLink : tree.entry old = some (.link text))
    (other : old ≠ directory ++ [name targetPath]) (spot : Path) :
    (made.renamed old (directory ++ [name targetPath]) (.link text)).entry spot =
      if spot = old then none else if spot = directory ++ [name targetPath] then some (.link text)
        else made.entry spot := by
  obtain ⟨_, entry, isThere, isHere⟩ := ready.found isOld
  cases Option.some.inj (isLink.symm.trans isThere)
  have leaf : (made.put (directory ++ [name targetPath]) (.link text)).entry old ≠ some .directory := by
    rw [ready.put_entry, if_neg other, isHere]
    exact fun never => nomatch never
  unfold ConfigTree.renamed
  rw [if_neg other, FileTree.entry_remove leaf, ready.put_entry]

/-- Where the new path leads once the link stands there. -/
theorem renamed_leads (ready : Ready tree made limit sourcePath targetPath directory)
    (isOld : tree.entryPlace limit sourcePath = some old) {text : String}
    (isLink : tree.entry old = some (.link text))
    (other : old ≠ directory ++ [name targetPath])
    (apart : tree.Apart limit made sourcePath directory old (directory ++ [name targetPath]) text) :
    (made.renamed old (directory ++ [name targetPath]) (.link text)).resolve limit [] targetPath =
      tree.settle limit (FileTree.origin directory text) (parts text) := by
  have entries := ready.renamed_entry isOld isLink other
  have same : ∀ spot, spot ≠ directory ++ [name targetPath] → spot ≠ old →
      (made.renamed old (directory ++ [name targetPath]) (.link text)).entry spot = made.entry spot :=
    fun spot otherPlace otherOld => by rw [entries, if_neg otherOld, if_neg otherPlace]
  have located := ready.located_changed (ready.found isOld).1 same ready.located ready.stands
  have isNew : (made.renamed old (directory ++ [name targetPath]) (.link text)).entry
    (directory ++ [name targetPath]) =
      some (.link text) := by
    rw [entries, if_neg other.symm, if_pos rfl]
  rw [← (apart _ fun spot otherOld otherPlace => same spot otherPlace otherOld).1]
  have whole := ready.targetWhole
  have stays := ready.targetStays
  generalize made.renamed old (directory ++ [name targetPath]) (.link text) = next at located isNew ⊢
  conv_lhs => rw [← whole, FileTree.resolve_append, FileTree.resolve_of_locate located]
  change FileTree.advance _ (FileTree.settle _ limit) directory (name targetPath) = _
  rw [FileTree.advance, if_neg stays, isNew]

/-- A file stands at neither place, so it stays. -/
theorem renamed_file (ready : Ready tree made limit sourcePath targetPath directory)
    (isOld : tree.entryPlace limit sourcePath = some old) {text : String}
    (isLink : tree.entry old = some (.link text))
    (other : old ≠ directory ++ [name targetPath]) {spot : Path} {content : Option (List UInt8)} :
    (made.renamed old (directory ++ [name targetPath]) (.link text)).entry spot = some (.file content) ↔
      tree.entry spot = some (.file content) := by
  obtain ⟨_, entry, isThere, isHere⟩ := ready.found isOld
  cases Option.some.inj (isLink.symm.trans isThere)
  have grown : made.entry spot = some (.file content) ↔ tree.entry spot = some (.file content) := by
    refine ⟨fun isFile => ?_, ready.grown.entry⟩
    rcases ready.grown spot with same | ⟨_, isDirectory, _⟩
    · rw [← same, isFile]
    · rw [isFile] at isDirectory
      cases isDirectory
  rw [ready.renamed_entry isOld isLink other, ← grown]
  split
  · rename_i isHome
    rw [isHome, isHere]
    exact iff_of_false (fun never => nomatch never) (fun never => nomatch never)
  · split
    · rename_i isPlace
      refine iff_of_false (fun never => nomatch never) (fun isFile => ?_)
      rw [isPlace] at isFile
      rcases ready.vacant.free with nothing | ⟨_, text, linked, _⟩
      · rw [nothing] at isFile
        cases isFile
      · rw [linked] at isFile
        cases isFile
    · exact Iff.rfl

/-- A link that leads to its file from the new directory as well shows what it showed. -/
theorem linkMoves_of_leads (ready : Ready tree made limit sourcePath targetPath directory)
    (isOld : tree.entryPlace limit sourcePath = some old) {text : String}
    (isLink : tree.entry old = some (.link text))
    (other : old ≠ directory ++ [name targetPath])
    (apart : tree.Apart limit made sourcePath directory old (directory ++ [name targetPath]) text)
    (leads : tree.settle limit (FileTree.origin directory text) (parts text) = tree.resolve limit
      [] sourcePath) :
    tree.LinkMoves limit
    (made.renamed old (directory ++ [name targetPath]) (.link text)) sourcePath targetPath := by
  obtain ⟨raw, isText⟩ := ready.readable
  obtain ⟨content, isFile⟩ := file_of_text isText
  have entries := ready.renamed_entry isOld isLink other
  have finds := ready.renamed_leads isOld isLink other apart
  have stays := (ready.renamed_file isOld isLink other).mpr isFile
  have includes := (apart _ fun spot otherOld otherPlace => by
    rw [entries, if_neg otherOld, if_neg otherPlace]).2
  generalize made.renamed old (directory ++ [name targetPath]) (.link text) =
    next at finds stays includes
  rw [leads] at finds
  have moved : ConfigTree.textAt next limit targetPath = some raw := by
    rw [← isText]
    unfold ConfigTree.textAt
    rw [finds, stays, isFile]
  unfold ConfigTree.LinkMoves ConfigTree.layoutAt ConfigTree.includedAt
  rw [moved, isText, finds]
  refine ⟨rfl, congrArg some ?_⟩
  split
  · rename_i yaml
    exact List.map_congr_left (includes yaml raw isText)
  · rfl

/-- A link that shows what it showed leads to its file, unless that has a copy. -/
theorem leads_of_linkMoves (ready : Ready tree made limit sourcePath targetPath directory)
    (isOld : tree.entryPlace limit sourcePath = some old) {text : String}
    (isLink : tree.entry old = some (.link text))
    (other : old ≠ directory ++ [name targetPath])
    (apart : tree.Apart limit made sourcePath directory old (directory ++ [name targetPath]) text)
    (lone : tree.Lone limit sourcePath)
    (moves : tree.LinkMoves limit
      (made.renamed old (directory ++ [name targetPath]) (.link text)) sourcePath targetPath) :
    tree.settle limit (FileTree.origin directory text) (parts text) = tree.resolve limit
    [] sourcePath := by
  obtain ⟨layouts, _⟩ := moves
  have finds := ready.renamed_leads isOld isLink other apart
  have files := @fun spot content => @renamed_file _ _ _ _ _ _ _ ready isOld _ isLink other spot content
  generalize made.renamed old (directory ++ [name targetPath]) (.link text) =
    next at layouts finds files
  rw [← finds]
  obtain ⟨raw, isText⟩ := ready.readable
  cases moved : ConfigTree.textAt next limit targetPath with
  | none =>
    unfold ConfigTree.layoutAt at layouts
    rw [moved, isText] at layouts
    cases layouts
  | some content =>
    obtain ⟨bytes, isFile⟩ := file_of_text moved
    have stood : tree.entry (next.resolve limit [] targetPath) = some (.file bytes) :=
      (files _ _).mp isFile
    have itself : tree.resolve limit [] (next.resolve limit [] targetPath) = next.resolve limit
      [] targetPath :=
      FileTree.resolve_settled (FileTree.settle_plain List.not_mem_nil) (FileTree.settled_file stood)
    rw [← itself]
    refine lone _ (layouts ▸ ?_)
    unfold ConfigTree.layoutAt ConfigTree.textAt
    rw [itself, stood, isFile]

/-! ### Files -/

theorem left_entry (ready : Ready tree made limit sourcePath targetPath directory)
    (isOld : made.entryPlace limit sourcePath = some old) (spot : Path) :
    ((made.remove (directory ++ [name targetPath])).remove old).entry spot =
      if spot = old then none else if spot = directory ++ [name targetPath] then none
        else made.entry spot := by
  obtain ⟨_, entry, _, _, _, isEntry, leaf, _⟩ := ready.source isOld
  have without := FileTree.entry_remove ready.vacant.leaf.1
  have leftLeaf : (made.remove (directory ++ [name targetPath])).entry old ≠ some .directory := by
    rw [without]
    split
    · exact fun never => nomatch never
    · rw [isEntry]
      exact fun isDirectory => leaf (Option.some.inj isDirectory)
  rw [FileTree.entry_remove leftLeaf, without]

/-- The disk without both entries has no other links than before. -/
theorem left_links (ready : Ready tree made limit sourcePath targetPath directory)
    (isOld : made.entryPlace limit sourcePath = some old) (spot : Path) (text : String)
    (isLink : ((made.remove (directory ++ [name targetPath])).remove old).entry spot =
      some (.link text)) :
    tree.entry spot = some (.link text) := by
  rw [ready.left_entry isOld] at isLink
  split at isLink
  · cases isLink
  · split at isLink
    · cases isLink
    · exact (ready.grown.links spot text).mpr isLink

theorem directory_plain (ready : Ready tree made limit sourcePath targetPath directory) :
    Plain directory := by
  rw [← FileTree.resolve_of_locate ready.located]
  exact FileTree.settle_plain List.not_mem_nil

/-- The directory of the new path leads to itself. -/
theorem left_itself (ready : Ready tree made limit sourcePath targetPath directory)
    (isOld : made.entryPlace limit sourcePath = some old) :
    ((made.remove (directory ++ [name targetPath])).remove old).resolve limit [] directory =
      directory := by
  obtain ⟨_, entry, _, _, _, isEntry, leaf, _⟩ := ready.source isOld
  have stands : ((made.remove (directory ++ [name targetPath])).remove old).entry directory =
    some .directory := by
    rw [ready.left_entry isOld, if_neg, if_neg, ready.stands]
    · intro same
      have longer := congrArg List.length same
      rw [List.length_append, List.length_singleton] at longer
      omega
    · rintro rfl
      rw [ready.stands] at isEntry
      exact leaf (Option.some.inj isEntry).symm
  exact FileTree.resolve_directory ready.directory_plain stands

/-- The loader finds the file of a word where the move found it. -/
theorem named_included (ready : Ready tree made limit sourcePath targetPath directory)
    (isFile : tree.isSymlink limit sourcePath = false)
    (isOld : tree.entryPlace limit sourcePath = some old) {word : String}
    {file : Path} (included : (tree.volume limit).included sourcePath (unquoted word) = .ok file) :
    (tree.volume limit).included (tree.resolve limit [] sourcePath) (unquoted word) = .ok
    (tree.named limit sourcePath word) := by
  obtain ⟨clean, ends, _⟩ := included_iff.mp included
  obtain ⟨above, located, rfl⟩ := entryPlace_iff.mp isOld
  obtain ⟨_, entry, isEntry, _⟩ := ready.found isOld
  have stands : tree.entry above = some .directory := by
    refine tree.nested above (name sourcePath) ?_
    rw [isEntry]
    exact fun never => nomatch never
  have unlinked : ∀ text, tree.entry (above ++ [name sourcePath]) ≠ some (.link text) := by
    intro text isLink
    have isSymlink : tree.isSymlink limit sourcePath = true := by
      unfold ConfigTree.isSymlink
      rw [isOld, Option.bind_some, isLink]
    rw [isFile] at isSymlink
    cases isSymlink
  have isAbove : tree.resolve limit [] (parent sourcePath) = above := FileTree.resolve_of_locate located
  have leads : tree.resolve limit [] sourcePath = above ++ [name sourcePath] := by
    conv_lhs => rw [← ready.sourceWhole, FileTree.resolve_append, isAbove]
    exact FileTree.resolve_leaf ready.sourceStays unlinked
  have plain : Plain above := isAbove ▸ FileTree.settle_plain List.not_mem_nil
  have itself : tree.resolve limit [] above = above := FileTree.resolve_directory plain stands
  have real : tree.resolve limit [] (join (parent (tree.resolve limit [] sourcePath)) (unquoted word)) =
      tree.named limit sourcePath word := by
    unfold ConfigTree.named join
    rw [leads, parent, List.dropLast_concat]
    split
    · rfl
    · rw [FileTree.resolve_append, FileTree.resolve_append, itself, isAbove]
  refine included_iff.mpr ⟨clean, ?_, real⟩
  change tree.loops (limit + 1) [] (tree.resolve limit [] _) = false
  rw [real]
  exact ends

end Ready

/-! ## The whole move -/

namespace ConfigRepository
variable {digest : List UInt8 → String} {base : Path} {limit : Nat} {permits : Permits}
  {tree made : ConfigTree}
variable {source target expected : String} {sourcePath targetPath directory : Path} {cargo : Cargo}

/-- What is left of a move that has arrived. -/
def landing (base : Path) (limit : Nat) (permits : Permits) (made : ConfigTree) (target : String)
    (sourcePath place : Path) : Cargo → Except WriteError String × ConfigTree
  | .link => renameLink base limit permits made target sourcePath place
  | .file content =>
    if permits.stores then
      unlinkSource base limit permits
        (made.put place (.file (some (String.ofList content).toUTF8.data.toList))) target
        sourcePath
    else (.error (.raised .os), made)

theorem Arrives.ready (plain : Plain base) (isSource : path base source = .ok sourcePath)
    (isTarget : path base target = .ok targetPath)
    (arrives : Arrives digest base limit permits tree source target expected sourcePath targetPath
      cargo made directory) :
    Ready tree made limit sourcePath targetPath directory ∧ embedsNull target = false := by
  obtain ⟨checked, isMade, allClean⟩ := arrives
  obtain ⟨raw, isText, absent, _⟩ := checkMove_ok isSource checked
  have clean := embedsNull_parts isTarget allClean
  exact ⟨Ready.of_made plain isSource isTarget (absent clean) ⟨raw, isText⟩ isMade, clean⟩

/-- A move that does not arrive changes nothing, and one that does is decided by what is left of it. -/
theorem preserves_iff_landing (plain : Plain base) (isSource : path base source = .ok sourcePath)
    (isTarget : path base target = .ok targetPath) (other : sourcePath ≠ targetPath) :
    tree.MovePreserves limit sourcePath targetPath
    (move digest base limit permits tree source target expected) ↔
      ∀ cargo made directory,
        Arrives digest base limit permits tree source target expected sourcePath targetPath cargo
          made directory →
        tree.MovePreserves limit sourcePath targetPath
          (landing base limit permits made target sourcePath
            (directory ++ [name targetPath]) cargo) := by
  unfold move
  rw [isSource]
  dsimp only
  rw [isTarget]
  dsimp only
  rw [if_neg other]
  cases checked : checkMove digest base limit tree source target expected sourcePath targetPath with
  | error e =>
    refine iff_of_true ⟨rfl, rfl⟩ (fun cargo made directory arrives => ?_)
    rw [arrives.checked] at checked
    cases checked
  | ok cargo =>
    obtain ⟨raw, isText, _⟩ := checkMove_ok isSource checked
    obtain ⟨_, sourceStays, _, sourceWhole⟩ := path_parts plain isSource
    obtain ⟨plainTarget, _, _, targetWhole⟩ := path_parts plain isTarget
    have grown := FileTree.makeDirectories_grown limit permits.makes tree.rooted plainTarget
    unfold transfer
    dsimp only
    split
    · rename_i null
      refine iff_of_true ⟨rfl, rfl⟩ (fun cargo made directory arrives => ?_)
      obtain ⟨part, inside, isNull⟩ := List.any_eq_true.mp null
      rw [arrives.clean part (List.dropLast_subset _ inside)] at isNull
      cases isNull
    · rename_i parentClean
      cases isMade : FileTree.makeDirectories limit tree permits.makes [] (parent targetPath) with
      | mk made found =>
        rw [isMade] at grown
        have still (e : WriteError) : tree.MovePreserves limit sourcePath targetPath (.error e, made) :=
          ⟨held_grown grown (held_of_text sourceStays sourceWhole isText), held_way grown⟩
        cases found with
        | none =>
          refine iff_of_true (still _) (fun cargo other directory arrives => ?_)
          have makes := arrives.makes
          rw [isMade] at makes
          cases makes
        | some directory =>
          dsimp only
          split
          · rename_i null
            refine iff_of_true (still _) (fun cargo other directory arrives => ?_)
            rw [arrives.clean (name targetPath) (name_mem targetWhole)] at null
            cases null
          · rename_i nameClean
            have clean : ∀ part ∈ targetPath, embedsNull part = false := by
              intro part member
              rw [← targetWhole] at member
              rcases List.mem_append.mp member with inside | isName
              · refine Bool.eq_false_iff.mpr fun null => parentClean ?_
                exact List.any_eq_true.mpr ⟨part, inside, null⟩
              · cases List.mem_singleton.mp isName
                exact Bool.eq_false_iff.mpr nameClean
            have landed : ∀ result, result =
                landing base limit permits made target sourcePath
                  (directory ++ [name targetPath]) cargo →
                (tree.MovePreserves limit sourcePath targetPath result ↔ ∀ cargo made directory,
                  Arrives digest base limit permits tree source target expected sourcePath
                    targetPath cargo made directory →
                  tree.MovePreserves limit sourcePath targetPath
                    (landing base limit permits made target sourcePath
                      (directory ++ [name targetPath]) cargo)) := by
              rintro _ rfl
              refine ⟨fun holds otherCargo other otherDirectory arrives => ?_,
                fun all => all cargo made directory ⟨checked, isMade, clean⟩⟩
              cases checked.symm.trans arrives.checked
              cases isMade.symm.trans arrives.makes
              exact holds
            exact landed _ (by cases cargo <;> rfl)

/-- When the rest of a link's move preserves the configuration. -/
theorem landing_link (ready : Ready tree made limit sourcePath targetPath directory)
    (isTarget : path base target = .ok targetPath) (clean : embedsNull target = false)
    (isLink : tree.isSymlink limit sourcePath = true) :
    tree.MovePreserves limit sourcePath targetPath
        (landing base limit permits made target sourcePath (directory ++ [name targetPath]) .link) ↔
      (permits.renames = true → ∀ old text, tree.entryPlace limit sourcePath = some old →
        tree.entry old = some (.link text) →
        if old = directory ++ [name targetPath] then permits.rereads = false
        else permits.rereads = true ∧
          tree.LinkMoves limit
          (made.renamed old (directory ++ [name targetPath]) (.link text)) sourcePath targetPath) := by
  obtain ⟨old, text, isOld, isEntry, isFound, isHere⟩ := ready.old_of_symlink isLink
  refine (ready.renameLink_iff isTarget clean isLink).trans (forall_congr' fun _ => ⟨?_, fun all => ?_⟩)
  · rintro ⟨place, entry, isPlace, isThere, holds⟩ other otherText isOther isOtherText
    cases Option.some.inj (isOld.symm.trans isOther)
    cases Option.some.inj (isEntry.symm.trans isOtherText)
    cases Option.some.inj (isFound.symm.trans isPlace)
    cases Option.some.inj (isHere.symm.trans isThere)
    exact holds
  · exact ⟨old, _, isFound, isHere, all old text isOld isEntry⟩

end ConfigRepository

section Words
variable {tree made : ConfigTree} {limit : Nat} {sourcePath targetPath directory old : Path}
  {raw : List Char}

/-- A file whose directives can be written anew can be moved. -/
theorem Ready.fileMoves_of_nameable (ready : Ready tree made limit sourcePath targetPath directory)
    (plain : Plain (parent targetPath)) (isFile : tree.isSymlink limit sourcePath = false)
    (isOld : tree.entryPlace limit sourcePath = some old)
    (isText : tree.textAt limit sourcePath = some raw)
    (found : isYaml sourcePath = true →
      ∀ word ∈ targetsOf raw, ∃ file, (tree.volume limit).included sourcePath
      (unquoted word) = .ok file)
    (clean : '\r' ∉ raw) (nameable : isYaml sourcePath = true → Canonical raw ∧
      ∀ word ∈ targetsOf raw, tree.Nameable (parent targetPath) directory
      (tree.named limit sourcePath word)) :
    tree.FileMoves limit
    ((made.remove (directory ++ [name targetPath])).remove old) sourcePath targetPath
      (directory ++ [name targetPath]) := by
  obtain ⟨isFound, _⟩ := ready.found isOld
  intro other isOther
  cases Option.some.inj (isText.symm.trans isOther)
  refine ⟨clean, fun yaml => ⟨(nameable yaml).1, fun word member => ?_⟩⟩
  obtain ⟨file, included⟩ := found yaml word member
  rw [ready.named_included isFile isOld included]
  exact ((nameable yaml).2 word member).leads plain List.dropLast_concat (ready.left_itself isFound)
    (ready.left_links isFound)

/-- The directives of a file that can be moved can be written anew, unless links help. -/
theorem Ready.nameable_of_fileMoves (ready : Ready tree made limit sourcePath targetPath directory)
    (plain : Plain (parent targetPath)) (isFile : tree.isSymlink limit sourcePath = false)
    (isOld : tree.entryPlace limit sourcePath = some old)
    (isText : tree.textAt limit sourcePath = some raw)
    (found : isYaml sourcePath = true →
      ∀ word ∈ targetsOf raw, ∃ file, (tree.volume limit).included sourcePath
      (unquoted word) = .ok file)
    (regular : isYaml sourcePath = true → ∀ word ∈ targetsOf raw,
      Spelled (parent targetPath) (tree.named limit sourcePath word) ∧
      tree.Settled (tree.named limit sourcePath word) ∧
      tree.Settled (ConfigTree.climbed (parent targetPath) directory
        (tree.named limit sourcePath word) ++
        below (parent targetPath) (tree.named limit sourcePath word)))
    (moves : tree.FileMoves limit
      ((made.remove (directory ++ [name targetPath])).remove old) sourcePath targetPath
      (directory ++ [name targetPath])) :
    '\r' ∉ raw ∧ (isYaml sourcePath = true → Canonical raw ∧
      ∀ word ∈ targetsOf raw,
        tree.Nameable (parent targetPath) directory (tree.named limit sourcePath word)) := by
  obtain ⟨isFound, _⟩ := ready.found isOld
  obtain ⟨clean, anew⟩ := moves raw isText
  refine ⟨clean, fun yaml => ⟨(anew yaml).1, fun word member => ?_⟩⟩
  obtain ⟨file, included⟩ := found yaml word member
  obtain ⟨spelled, settled, unlinked⟩ := regular yaml word member
  have leads := (anew yaml).2 word member
  rw [ready.named_included isFile isOld included] at leads
  exact nameable_of_leads spelled settled unlinked plain List.dropLast_concat
    (ready.left_itself isFound)
    (ready.left_links isFound) leads

end Words

/-- A move whose condition holds keeps its promise, and a regular move keeps it only then. -/
theorem config_move_preserves_iff (digest : List UInt8 → String) {base : Path} (plain : Plain base)
    (limit : Nat)
    (permits : Permits) (tree : ConfigTree) (source target expected : String)
    {sourcePath targetPath : Path}
    (isSource : ConfigRepository.path base source = .ok sourcePath)
    (isTarget : ConfigRepository.path base target = .ok targetPath)
    (elsewhere : parent sourcePath ≠ parent targetPath) :
    (ConfigRepository.Movable digest base limit permits tree source target expected sourcePath
      targetPath →
      tree.MovePreserves limit sourcePath targetPath
        (ConfigRepository.move digest base limit permits tree source target expected)) ∧
    (ConfigRepository.Regular digest base limit permits tree source target expected sourcePath
      targetPath →
      tree.MovePreserves limit sourcePath targetPath
        (ConfigRepository.move digest base limit permits tree source target expected) →
      ConfigRepository.Movable digest base limit permits tree source target expected sourcePath
        targetPath) := by
  have other : sourcePath ≠ targetPath := fun same => elsewhere (congrArg parent same)
  obtain ⟨plainTarget, _⟩ := path_parts plain isTarget
  rw [ConfigRepository.preserves_iff_landing plain isSource isTarget other]
  constructor
  · intro movable cargo made directory arrives
    have holds := movable cargo made directory arrives
    obtain ⟨ready, clean⟩ := arrives.ready plain isSource isTarget
    obtain ⟨raw, isText, _, goes⟩ := checkMove_ok isSource arrives.checked
    cases cargo with
    | link =>
      refine (ConfigRepository.landing_link ready isTarget clean goes).mpr
        fun renames old text isOld isLink => ?_
      have holds := holds renames old text isOld isLink
      split at holds
      · rename_i same
        rwa [if_pos same]
      · rename_i differs
        obtain ⟨rereads, apart, leads⟩ := holds
        rw [if_neg differs]
        exact ⟨rereads, ready.linkMoves_of_leads isOld isLink differs apart leads⟩
    | file content =>
      obtain ⟨isFile, isContent, found⟩ := goes
      simp only [ne_eq, elsewhere, not_false_eq_true, true_and] at isContent
      rw [ConfigRepository.landing]
      cases stores : permits.stores with
      | false => exact ready.still _
      | true =>
        rw [if_pos rfl]
        obtain ⟨removes, rereads, isSome, anew⟩ := holds stores
        obtain ⟨old, isOld⟩ := Option.isSome_iff_exists.mp isSome
        obtain ⟨clear, nameable⟩ := anew raw isText
        refine (ready.unlinkSource_iff isTarget clean isFile isText isContent
          fun yaml word member => ?_).mpr
          ⟨removes, rereads, old, (ready.found isOld).1, ?_⟩
        · exact rewrittenWord_solid plainTarget ((nameable yaml).2 word member).spelled
        · exact ready.fileMoves_of_nameable plainTarget isFile isOld isText
            (found elsewhere) clear nameable
  · intro regular preserves cargo made directory arrives
    have holds := preserves cargo made directory arrives
    have plainly := regular cargo made directory arrives
    obtain ⟨ready, clean⟩ := arrives.ready plain isSource isTarget
    obtain ⟨raw, isText, _, goes⟩ := checkMove_ok isSource arrives.checked
    cases cargo with
    | link =>
      intro renames old text isOld isLink
      have holds := (ConfigRepository.landing_link ready isTarget clean goes).mp holds renames old
        text isOld isLink
      split at holds
      · rename_i same
        rwa [if_pos same]
      · rename_i differs
        obtain ⟨apart, lone⟩ := plainly old text isOld isLink differs
        rw [if_neg differs]
        exact ⟨holds.1, apart, ready.leads_of_linkMoves isOld isLink differs apart lone holds.2⟩
    | file content =>
      intro stores
      obtain ⟨isFile, isContent, found⟩ := goes
      simp only [ne_eq, elsewhere, not_false_eq_true, true_and] at isContent
      obtain ⟨isSome, spelled⟩ := plainly
      obtain ⟨old, isOld⟩ := Option.isSome_iff_exists.mp isSome
      rw [ConfigRepository.landing, if_pos stores] at holds
      obtain ⟨removes, rereads, found', isFound, moves⟩ :=
        (ready.unlinkSource_iff isTarget clean isFile isText isContent fun yaml word member =>
          rewrittenWord_solid plainTarget (spelled yaml raw isText word member).1).mp holds
      cases Option.some.inj (isFound.symm.trans (ready.found isOld).1)
      refine ⟨removes, rereads, isSome, fun other isOther => ?_⟩
      cases Option.some.inj (isText.symm.trans isOther)
      exact ready.nameable_of_fileMoves plainTarget isFile isOld isText (found elsewhere)
        (fun yaml => spelled yaml raw isText) moves

/-! ## A configuration beside a shared one -/

def sharedTree (content : String) : ConfigTree :=
  (((FileTree.empty.put ["config"] .directory).put ["config", "a"] .directory).put
    ["config", "a", "base.yaml"]
    (.file (some "k: 1\n".toUTF8.data.toList))).put ["config", "a", "x.yaml"]
      (.file (some content.toUTF8.data.toList))

def plainPermits : Permits := ⟨9, true, true, true, true⟩

def includingText : String := "!include base.yaml 'base.yaml'\n"

def commentedText : String := "!include base.yaml  # shared\n"

def moveShared (content : String) : Except WriteError String × ConfigTree :=
  ConfigRepository.move charDigest [] 5 plainPermits (sharedTree content) "a/x.yaml" "x.yaml"
    (version charDigest content)

theorem canonical_of_all {text : List Char} (all : (pieces includeMatch 0 text).all (fun part =>
    match part with
    | .token group span => span == directive group
    | .plain _ => true) = true) : Canonical text := by
  intro group span member
  exact beq_iff_eq.mp (List.all_eq_true.mp all _ member)

theorem movePreserves_ok {tree : ConfigTree} {limit : Nat} {sourcePath targetPath : Path}
    {result : Except WriteError String × ConfigTree} (done : result.1.isOk = true) :
    tree.MovePreserves limit sourcePath targetPath result ↔
      result.2.layoutAt limit (isYaml sourcePath) targetPath = tree.layoutAt limit
      (isYaml sourcePath) sourcePath ∧
        result.2.includedAt limit (isYaml sourcePath) targetPath = tree.includedAt limit
        (isYaml sourcePath) sourcePath ∧
        result.2.held limit sourcePath = none := by
  obtain ⟨_ | current, next⟩ := result
  · cases done
  · exact Iff.rfl

/-- Both directives lead out of the new directory, which the move makes, and back to the shared file. -/
theorem config_move_preserves_shared :
    ConfigRepository.Movable charDigest [] 5 plainPermits
    (sharedTree includingText) "a/x.yaml" "b/x.yaml"
      (version charDigest includingText) ["config", "a", "x.yaml"] ["config", "b", "x.yaml"] ∧
    (sharedTree includingText).MovePreserves 5 ["config", "a", "x.yaml"] ["config", "b", "x.yaml"]
      (ConfigRepository.move charDigest [] 5 plainPermits
        (sharedTree includingText) "a/x.yaml" "b/x.yaml"
        (version charDigest includingText)) := by
  have isSource : ConfigRepository.path [] "a/x.yaml" = .ok ["config", "a", "x.yaml"] := by
    decide +kernel
  have isTarget : ConfigRepository.path [] "b/x.yaml" = .ok ["config", "b", "x.yaml"] := by
    decide +kernel
  have movable : ConfigRepository.Movable charDigest [] 5 plainPermits
    (sharedTree includingText) "a/x.yaml" "b/x.yaml"
      (version charDigest includingText) ["config", "a", "x.yaml"] ["config", "b", "x.yaml"] := by
    intro cargo made directory arrives
    obtain ⟨raw, isText, _, goes⟩ := checkMove_ok isSource arrives.checked
    cases cargo with
    | link =>
      have isLink : (sharedTree includingText).isSymlink 5 ["config", "a", "x.yaml"] = true := goes
      exact absurd isLink (by decide +kernel)
    | file content =>
      refine fun _ => ⟨rfl, rfl, by decide +kernel, fun other isOther => ?_⟩
      have isRaw : (sharedTree includingText).textAt 5 ["config", "a", "x.yaml"] =
        some includingText.toList := by
        decide +kernel
      cases Option.some.inj (isRaw.symm.trans isOther)
      refine ⟨by decide +kernel, fun _ => ⟨canonical_of_all (by decide +kernel), fun word member => ?_⟩⟩
      have isDirectory : (FileTree.makeDirectories 5 (sharedTree includingText) 9 []
        ["config", "b"]).2 =
          some ["config", "b"] := by decide +kernel
      have makes := congrArg Prod.snd arrives.makes
      cases Option.some.inj (isDirectory.symm.trans makes)
      have names : ∀ raw ∈ targetsOf includingText.toList,
          (sharedTree includingText).named 5 ["config", "a", "x.yaml"] raw =
            ["config", "a", "base.yaml"] := by
        decide +kernel
      rw [names word member]
      exact ⟨⟨by decide +kernel, by decide +kernel, by decide +kernel⟩, by decide +kernel, climbed_self _ _⟩
  exact ⟨movable, (config_move_preserves_iff charDigest (by decide) 5 plainPermits
    (sharedTree includingText) "a/x.yaml"
    "b/x.yaml" (version charDigest includingText) isSource isTarget (by decide)).1 movable⟩

/-- The blank before a comment goes, and the comment becomes part of the directive's line. -/
theorem config_move_swallows_comment :
    ¬ (sharedTree commentedText).MovePreserves 5 ["config", "a", "x.yaml"]
    ["config", "x.yaml"] (moveShared commentedText) := by
  intro holds
  have same := ((movePreserves_ok (by decide +kernel)).mp holds).1
  revert same
  decide +kernel

end LocalFlow
