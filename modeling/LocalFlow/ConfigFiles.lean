import LocalFlow.Library.DepthFirst
import LocalFlow.Library.Paths
import LocalFlow.Library.Scan
import LocalFlow.Storage.Drafts

/-! The configuration directory: the files on the disk, the include directives of a YAML file and the part of
`ConfigRepository` that reads. The loader of the files is not part of the repository. -/
namespace LocalFlow
open Paths

/-- What a path names. `denied` is a `stat` that raises, and `file none` a file that cannot be
opened. -/
inductive VolumeNode where
  | missing | other | denied
  | file (bytes : Option (List UInt8))

/-- The disk at one moment, with the paths its symbolic links lead to. The links of some paths lead
back to themselves, so that `stat` raises `ELOOP`. -/
structure Volume where
  realpath : Path → Path
  loops : Path → Bool
  node : Path → VolumeNode

/-- An exception of the repository. `decode` is the `UnicodeDecodeError`, `loop` the `RuntimeError`
of `resolve`, `other` one of the loader, and `exit` one that is no `Exception`. -/
inductive Raised where
  | os | decode | loop | recursion | exit
  | value (message : String)
  | other (message : String)
  deriving DecidableEq

/-- Universal newlines. -/
def newlines : List Char → List Char
  | '\r' :: '\n' :: rest => '\n' :: newlines rest
  | '\r' :: rest => '\n' :: newlines rest
  | c :: rest => c :: newlines rest
  | [] => []

/-- `path.resolve()` of Python 3.11 and 3.12, which looks whether the real path still loops. -/
def Volume.resolve (disk : Volume) (path : Path) : Except Raised Path :=
  if disk.loops path then .error .loop else .ok (disk.realpath path)

/-- `path.read_text(encoding="utf-8")`. -/
def Volume.readText (disk : Volume) (path : Path) : Except Raised String :=
  match disk.node path with
  | .file (some bytes) =>
    match String.fromUTF8? ⟨bytes.toArray⟩ with
    | some text => .ok (String.ofList (newlines text.toList))
    | none => .error .decode
  | _ => .error .os

/-- `str.lower` of a suffix, as far as it is compared with ASCII. -/
def lowered (text : String) : String := text.map Char.toLower

@[irreducible] def isYaml (path : Path) : Bool := lowered (suffix path) ∈ [".yaml", ".yml"]

@[irreducible] def isSupported (path : Path) : Bool :=
  lowered (suffix path) ∈ [".yaml", ".yml", ".toml", ".json"]

/-! ## Include directives -/

/-- `str.split()`. -/
def words (text : List Char) : List String :=
  ((text.splitOnP isSpace).filter (fun word => word ≠ [])).map String.ofList

def isLineEnd (c : Char) : Bool := c = '\r' || c = '\n'

/-- A match of `!include\s+([^#\r\n]+)` with the words of its group. Where nothing else follows the
blanks, the expression gives one of them back, which the group then is. -/
def includeMatch (text : List Char) : Option (List String × Nat) :=
  if "!include".toList.isPrefixOf text then
    let blanks := (text.drop 8).takeWhile isSpace
    let group := ((text.drop 8).dropWhile isSpace).takeWhile (fun c => c ∉ ['#', '\r', '\n'])
    let given := blanks.tail.reverse.dropWhile isLineEnd
    if blanks = [] then none
    else if group ≠ [] then some (words group, 8 + blanks.length + group.length)
    else if given = [] then none
    else some ([], 9 + given.length)
  else none

/-- A match that names something. -/
def includeToken (text : List Char) : Option (List String × Nat) :=
  (includeMatch text).filter (fun found => found.1 ≠ [])

/-- What the directives of a text name, in order. -/
def targetsOf (text : List Char) : List String :=
  ((Scanning.finditer includeToken 0 0 text).map Scanning.Match.token).flatten

@[irreducible] def includeTargets (content : String) : List String := targetsOf content.toList

section Newlines

/-- A text and what universal newlines make of it. -/
inductive ReadAs : List Char → List Char → Prop where
  | nil : ReadAs [] []
  | keep {text read : List Char} (c : Char) (plain : c ≠ '\r') (rest : ReadAs text read) : ReadAs
      (c :: text) (c :: read)
  | carriage {text read : List Char} (rest : ReadAs text read) : ReadAs ('\r' :: text) ('\n' :: read)
  | both {text read : List Char} (rest : ReadAs text read) : ReadAs ('\r' :: '\n' :: text)
      ('\n' :: read)

variable {text read : List Char}

theorem newlines_readAs (text : List Char) : ReadAs text (newlines text) := by
  induction text using newlines.induct with
  | case1 rest ih => exact .both ih
  | case2 rest plain ih =>
    rw [newlines]
    · exact .carriage ih
    · exact plain
  | case3 c rest plain single ih =>
    have kept : c ≠ '\r' := fun same => single same
    rw [newlines]
    · exact .keep c kept ih
    · exact plain
    · exact single
  | case4 => exact .nil

theorem ReadAs.head (readAs : ReadAs text read) {word : List Char}
    (plain : ∀ c ∈ word, c ≠ '\r' ∧ c ≠ '\n') :
    word.isPrefixOf text = word.isPrefixOf read ∧
      (word.isPrefixOf text = true → ReadAs (text.drop word.length) (read.drop word.length)) := by
  induction word generalizing text read with
  | nil => exact ⟨rfl, fun _ => readAs⟩
  | cons first word ih =>
    obtain ⟨carriage, newline⟩ := plain first List.mem_cons_self
    have plain : ∀ c ∈ word, c ≠ '\r' ∧ c ≠ '\n' := fun c member =>
      plain c (List.mem_cons_of_mem _ member)
    have carriage : (first == '\r') = false := beq_eq_false_iff_ne.mpr carriage
    have newline : (first == '\n') = false := beq_eq_false_iff_ne.mpr newline
    cases readAs with
    | nil => exact ⟨rfl, fun never => nomatch never⟩
    | keep c kept rest =>
      obtain ⟨same, later⟩ := ih rest plain
      rw [List.isPrefixOf, List.isPrefixOf, same]
      refine ⟨rfl, fun matched => later ?_⟩
      rw [same]
      exact (Bool.and_eq_true_iff.mp matched).2
    | carriage rest =>
      rw [List.isPrefixOf, List.isPrefixOf, carriage, newline]
      exact ⟨rfl, fun never => nomatch never⟩
    | both rest =>
      rw [List.isPrefixOf, List.isPrefixOf, carriage, newline]
      exact ⟨rfl, fun never => nomatch never⟩

theorem ReadAs.spaces (readAs : ReadAs text read) :
    (text.takeWhile isSpace = [] ↔ read.takeWhile isSpace = []) ∧
      ReadAs (text.dropWhile isSpace) (read.dropWhile isSpace) := by
  induction readAs with
  | nil => exact ⟨Iff.rfl, .nil⟩
  | @keep text read c plain rest ih =>
    rw [List.takeWhile_cons, List.takeWhile_cons, List.dropWhile_cons, List.dropWhile_cons]
    split
    · exact ⟨by simp, ih.2⟩
    · exact ⟨Iff.rfl, .keep c plain rest⟩
  | carriage rest ih => exact ⟨by simp [isSpace], ih.2⟩
  | both rest ih => exact ⟨by simp [isSpace], ih.2⟩

theorem ReadAs.group (readAs : ReadAs text read) :
    text.takeWhile (fun c => c ∉ ['#', '\r', '\n']) = read.takeWhile (fun c => c ∉ ['#', '\r', '\n']) ∧
      ReadAs (text.dropWhile (fun c => c ∉ ['#', '\r', '\n']))
      (read.dropWhile (fun c => c ∉ ['#', '\r', '\n'])) := by
  induction readAs with
  | nil => exact ⟨rfl, .nil⟩
  | @keep text read c plain rest ih =>
    rw [List.takeWhile_cons, List.takeWhile_cons, List.dropWhile_cons, List.dropWhile_cons]
    split
    · exact ⟨congrArg (c :: ·) ih.1, ih.2⟩
    · exact ⟨rfl, .keep c plain rest⟩
  | carriage rest ih => exact ⟨rfl, .carriage rest⟩
  | both rest ih => exact ⟨rfl, .both rest⟩

theorem drop_taken (p : Char → Bool) (text : List Char) :
    text.drop (text.takeWhile p).length = text.dropWhile p := by
  have whole : text.takeWhile p ++ text.dropWhile p = text := List.takeWhile_append_dropWhile
  calc
    _ = (text.takeWhile p ++ text.dropWhile p).drop (text.takeWhile p).length := by rw [whole]
    _ = _ := List.drop_left

theorem words_cons {c : Char} (solid : isSpace c = false) (rest : List Char) :
    words (c :: rest) ≠ [] := by
  intro none
  have nothing := List.filter_eq_nil_iff.mp (List.map_eq_nil_iff.mp none)
  rw [List.splitOnP_cons_eq_if_modifyHead, if_neg (Bool.eq_false_iff.mp solid)] at nothing
  obtain ⟨first, later, isSplit⟩ := List.exists_cons_of_ne_nil (List.splitOnP_ne_nil isSpace rest)
  rw [isSplit] at nothing
  exact nothing (c :: first) List.mem_cons_self (decide_eq_true (List.cons_ne_nil _ _))

/-- A group that begins after the blanks has words. -/
theorem words_group (named : ((text.drop 8).dropWhile isSpace).takeWhile
      (fun c => c ∉ ['#', '\r', '\n']) ≠ []) :
    words (((text.drop 8).dropWhile isSpace).takeWhile (fun c => c ∉ ['#', '\r', '\n'])) ≠ [] := by
  have solid := List.head?_dropWhile_not isSpace (text.drop 8)
  cases isRest : (text.drop 8).dropWhile isSpace with
  | nil =>
    rw [isRest] at named
    exact absurd rfl named
  | cons c rest =>
    rw [isRest] at named solid
    have unspaced : isSpace c = false := by simpa using solid
    by_cases inside : c ∉ ['#', '\r', '\n']
    · rw [List.takeWhile_cons_of_pos (p := fun c => c ∉ ['#', '\r', '\n']) (decide_eq_true inside)]
      exact words_cons unspaced _
    · rw [List.takeWhile_cons_of_neg (p := fun c => c ∉ ['#', '\r', '\n'])
        (fun found => inside (of_decide_eq_true found))]
        at named
      exact absurd rfl named

theorem includeToken_none
    (quiet : "!include".toList.isPrefixOf text = false ∨ (text.drop 8).takeWhile isSpace = [] ∨
    ((text.drop 8).dropWhile isSpace).takeWhile (fun c => c ∉ ['#', '\r', '\n']) = []) :
    includeToken text = none := by
  unfold includeToken includeMatch
  split
  · rename_i matched
    obtain other | blank | bare := quiet
    · rw [other] at matched
      cases matched
    · exact congrArg (Option.filter _) (if_pos blank)
    · dsimp only
      rw [bare]
      split
      · rfl
      · rw [if_neg (not_not.mpr rfl)]
        split
        · rfl
        · rfl
  · rfl

theorem includeToken_some (matched : "!include".toList.isPrefixOf text = true)
    (spaced : (text.drop 8).takeWhile isSpace ≠ [])
    (named : ((text.drop 8).dropWhile isSpace).takeWhile (fun c => c ∉ ['#', '\r', '\n']) ≠ []) :
    ∃ n, includeToken text =
        some (words (((text.drop 8).dropWhile isSpace).takeWhile (fun c => c ∉ ['#', '\r', '\n'])),
          n + 1) ∧
      text.drop (n + 1) = ((text.drop 8).dropWhile isSpace).dropWhile
      (fun c => c ∉ ['#', '\r', '\n']) := by
  refine ⟨7 + ((text.drop 8).takeWhile isSpace).length +
    (((text.drop 8).dropWhile isSpace).takeWhile (fun c => c ∉ ['#', '\r', '\n'])).length, ?_, ?_⟩
  · unfold includeToken includeMatch
    rw [if_pos matched]
    dsimp only
    rw [if_neg spaced, if_pos named, Option.filter_some, if_pos (decide_eq_true (words_group named))]
    congr 2
    omega
  · rw [← drop_taken (fun c => c ∉ ['#', '\r', '\n']), ← drop_taken isSpace, List.drop_drop,
      List.drop_drop]
    congr 1
    omega

/-- A directive is found in both texts, with the same words, or in neither. -/
theorem ReadAs.token (readAs : ReadAs text read) :
    includeToken text = none ∧ includeToken read = none ∨
    ∃ targets n m, includeToken text = some (targets, n + 1) ∧
      includeToken read = some (targets, m + 1) ∧
      ReadAs (text.drop (n + 1)) (read.drop (m + 1)) := by
  obtain ⟨same, later⟩ := @ReadAs.head text read readAs "!include".toList (by simp)
  cases matched : "!include".toList.isPrefixOf text with
  | false => exact .inl ⟨includeToken_none (.inl matched), includeToken_none (.inl (same.symm.trans matched))⟩
  | true =>
    have after : ReadAs (text.drop 8) (read.drop 8) := later matched
    obtain ⟨blank, afterSpaces⟩ := after.spaces
    obtain ⟨sameGroup, afterGroup⟩ := afterSpaces.group
    by_cases spaced : (text.drop 8).takeWhile isSpace = []
    · exact .inl ⟨includeToken_none (.inr (.inl spaced)),
        includeToken_none (.inr (.inl (blank.mp spaced)))⟩
    · by_cases named : ((text.drop 8).dropWhile isSpace).takeWhile (fun c => c ∉ ['#', '\r', '\n']) = []
      · exact .inl ⟨includeToken_none (.inr (.inr named)),
          includeToken_none (.inr (.inr (sameGroup.symm.trans named)))⟩
      · obtain ⟨n, found, rest⟩ := includeToken_some matched spaced named
        obtain ⟨m, found', rest'⟩ :=
          @includeToken_some read (same.symm.trans matched) (fun none => spaced (blank.mpr none))
          (fun none => named (sameGroup.trans none))
        refine .inr ⟨_, n, m, found, ?_, ?_⟩
        · rw [found', sameGroup]
        · rw [rest, rest']
          exact afterGroup

theorem targetsOf_cons (c : Char) (quiet : includeToken (c :: text) = none) :
    targetsOf (c :: text) = targetsOf text := by
  unfold targetsOf
  rw [Scanning.finditer, quiet]
  exact congrArg List.flatten (Scanning.finditer_drop includeToken 1 0 text)

theorem targetsOf_found {targets : List String} {n : Nat}
    (found : includeToken text = some (targets, n + 1)) :
    targetsOf text = targets ++ targetsOf (text.drop (n + 1)) := by
  cases text with
  | nil => cases found
  | cons c rest =>
    unfold targetsOf
    rw [Scanning.finditer, found]
    exact congrArg (targets ++ ·) (congrArg List.flatten (Scanning.finditer_drop includeToken 1 n rest))

theorem ReadAs.targets (readAs : ReadAs text read) : targetsOf read = targetsOf text := by
  suffices all : ∀ length (text read : List Char), text.length ≤ length → ReadAs text read →
    targetsOf read = targetsOf text from
    all text.length text read le_rfl readAs
  intro length
  induction length with
  | zero =>
    intro text read short readAs
    cases List.eq_nil_of_length_eq_zero (Nat.le_zero.mp short)
    cases readAs
    rfl
  | succ length ih =>
    intro text read short readAs
    obtain ⟨quiet, quiet'⟩ | ⟨targets, n, m, found, found', rest⟩ := readAs.token
    · cases readAs with
      | nil => rfl
      | keep c plain rest =>
        rw [targetsOf_cons c quiet, targetsOf_cons c quiet']
        exact ih _ _ (Nat.le_of_succ_le_succ short) rest
      | carriage rest =>
        rw [targetsOf_cons _ quiet, targetsOf_cons _ quiet']
        exact ih _ _ (Nat.le_of_succ_le_succ short) rest
      | both rest =>
        rw [targetsOf_cons _ quiet, targetsOf_cons _ quiet', targetsOf_cons _ rfl]
        exact ih _ _ (Nat.le_of_succ_le (Nat.le_of_succ_le_succ short)) rest
    · rw [targetsOf_found found, targetsOf_found found']
      refine congrArg (targets ++ ·) (ih _ _ ?_ rest)
      rw [List.length_drop]
      omega

/-- The line ends of a text do not change what its directives name. -/
theorem includeTargets_newlines (content : String) :
    includeTargets (String.ofList (newlines content.toList)) = includeTargets content := by
  unfold includeTargets
  rw [String.toList_ofList]
  exact (newlines_readAs content.toList).targets

end Newlines

def isQuote (c : Char) : Bool := c = '\'' || c = '"'

/-- `raw.strip("'\"")`. -/
@[irreducible] def unquoted (raw : String) : String :=
  String.ofList ((raw.toList.dropWhile isQuote).reverse.dropWhile isQuote).reverse

@[irreducible] def embedsNull (text : String) : Bool := text.toList.contains (Char.ofNat 0)

/-- `(path.parent / relative).resolve()`. -/
def Volume.included (disk : Volume) (path : Path) (relative : String) : Except Raised Path :=
  if embedsNull relative then .error (.value "embedded null byte")
  else disk.resolve (join (parent path) relative)

/-- The directives of a file. -/
def directives (path : Path) (content : String) : List (Path × String) :=
  if isYaml path then (includeTargets content).map (fun raw => (path, raw)) else []

/-- The check of a directive in `_check_includes`. -/
def Volume.checkedTarget (disk : Volume) (directive : Path × String) : Except Raised Path :=
  let relative := unquoted directive.2
  match disk.included directive.1 relative with
  | .error e => .error e
  | .ok included =>
    if ¬ isSupported included then .error (.value ("unsupported included config format: " ++ relative))
    else
      match disk.node included with
      | .file _ => .ok included
      | .denied => .error .os
      | _ => .error (.value ("included config does not exist: " ++ relative))

/-- The files as `_check_includes` walks them. -/
def Volume.checkedGraph (disk : Volume) : DepthFirst.Graph (Path × String) Path Raised where
  target := disk.checkedTarget
  edges := fun path => (disk.readText path).map (directives path)
  overflow := .recursion

/-- `_check_includes` with `visited` holding the path, and the paths it has met when it ends.
`limit` is how many more calls the interpreter lets it nest. -/
def Volume.checkIncludes (disk : Volume) (limit : Nat) (path : Path) (content : String) :
    List Path × Option Raised :=
  DepthFirst.search disk.checkedGraph path limit (directives path content) []

/-! ## Dependencies -/

/-- A directive in `dependencies`, where a missing target is kept. -/
def Volume.dependencyTarget (disk : Volume) (directive : Path × String) : Except Raised Path :=
  disk.included directive.1 (unquoted directive.2)

/-- The directives that `visit` finds in a file. Only an `OSError` is caught. -/
def Volume.dependencyEdges (disk : Volume) (path : Path) : Except Raised (List (Path × String)) :=
  if isYaml path then
    match disk.readText path with
    | .ok content => .ok (directives path content)
    | .error .os => .ok []
    | .error e => .error e
  else .ok []

def Volume.dependencyGraph (disk : Volume) : DepthFirst.Graph (Path × String) Path Raised where
  target := disk.dependencyTarget
  edges := disk.dependencyEdges
  overflow := .recursion

/-! ## The repository -/

/-- The configuration directory of a workspace. -/
def configDirectory (base : Path) : Path := base ++ ["config"]

structure FileName where
  text : String
  named : text ≠ "" ∧ text ≠ "." ∧ text ≠ ".." ∧ '/' ∉ text.toList ∧ Char.ofNat 0 ∉ text.toList

/-- What a directory holds, each file with its bytes or none if it cannot be opened, each directory
with its device and inode, and with what it holds if it can be listed. `other` has vanished or is
neither. -/
inductive Entries where
  | done
  | other (rest : Entries)
  | file (name : FileName) (bytes : Option (List UInt8)) (rest : Entries)
  | directory (name : FileName) (identity : Nat) (listed : Bool) (entries rest : Entries)

/-- The files of a tree that are wanted. A directory below one of the same identity is left alone.
`limit` is how many more calls the interpreter lets it nest; the order of the entries is that of the
directory, as no caller depends on it. -/
def Entries.visit (skips wanted : String → Bool) : Entries → Nat → List Nat → List FileName →
    Except Raised (List (List FileName × Option (List UInt8)))
  | .done, _, _, _ => .ok []
  | .other rest, limit, ancestors, relative => rest.visit skips wanted limit ancestors relative
  | .file name bytes rest, limit, ancestors, relative => do
    let later ← rest.visit skips wanted limit ancestors relative
    if skips name.text then .ok later
    else if wanted name.text then .ok ((relative ++ [name], bytes) :: later)
    else .ok later
  | .directory name identity listed entries rest, limit, ancestors, relative =>
    if skips name.text then rest.visit skips wanted limit ancestors relative
    else
      match limit with
      | 0 => .error .recursion
      | limit + 1 =>
        let below := if identity ∈ ancestors ∨ listed = false then .ok []
          else entries.visit skips wanted limit (identity :: ancestors) (relative ++ [name])
        do
          let inner ← below
          let later ← rest.visit skips wanted (limit + 1) ancestors relative
          .ok (inner ++ later)

/-- A directory with its identity, or none if it cannot be listed. -/
abbrev DirectoryListing := Option (Nat × Entries)

def DirectoryListing.files (skips wanted : String → Bool) (limit : Nat) : DirectoryListing →
    Except Raised (List (List FileName × Option (List UInt8)))
  | none => .ok []
  | some (identity, entries) => entries.visit skips wanted limit [identity] []

/-- `as_posix`. -/
def posix (names : List FileName) : String :=
  String.ofList (['/'].intercalate (names.map (fun name => name.text.toList)))

namespace ConfigRepository

/-- `list`. -/
def list (limit : Nat) (listing : DirectoryListing) : Except Raised (List String) := do
  let files ← listing.files (fun _ => false) (fun name => isSupported [name]) limit
  .ok ((files.map (fun file => posix file.1)).insertionSort (· ≤ ·))

/-- `_path`. -/
def path (base : Path) (relative : String) : Except Raised Path :=
  let components := parts relative
  if isAbsolute relative ∨ relative = "" ∨ ".." ∈ components then
    .error (.value "config path escapes config directory")
  else if ¬ isSupported (configDirectory base ++ components) then
    .error (.value "unsupported config format")
  else .ok (configDirectory base ++ components)

/-- `_resolve`. -/
def resolve (base : Path) (disk : Volume) (relative : String) : Except Raised Path :=
  match path base relative with
  | .error e => .error e
  | .ok path => if embedsNull relative then .error (.value "embedded null byte") else disk.resolve path

/-- The text of `read`; its version is the digest of it. -/
def read (base : Path) (disk : Volume) (relative : String) : Except Raised String :=
  match resolve base disk relative with
  | .error e => .error e
  | .ok path => disk.readText path

/-- `dependencies`. -/
def dependencies (base : Path) (disk : Volume) (limit : Nat) (relative : String) :
    Except Raised (List Path) :=
  match resolve base disk relative with
  | .error e => .error e
  | .ok path =>
    match disk.dependencyEdges path with
    | .error e => .error e
    | .ok edges =>
      match DepthFirst.search disk.dependencyGraph path limit edges [] with
      | (_, some e) => .error e
      | (met, none) => .ok met

end ConfigRepository

/-- What `parse` did: the files it read itself, the file it handed to the loader with the disk the
loader saw, and what it returned. -/
structure Parsed (α : Type*) where
  reads : List Path
  loads : Option (Volume × Path)
  result : Except Raised α

/-- The disk with one more file. -/
def Volume.put (disk : Volume) (path : Path) (content : String) : Volume :=
  { disk with node := fun other => if other = path then .file (some content.toUTF8.data.toList)
    else disk.node other }

/-- The name that `mkstemp` makes of a path with random characters. -/
def temporaryName (path : Path) (random : String) : String :=
  "." ++ stem path ++ ".validate." ++ random ++ suffix path

def temporary (path : Path) (random : String) : Path := parent path ++ [temporaryName path random]

namespace ConfigRepository
variable {α : Type*}

/-- The loading in `parse`, of a temporary file beside the path where a content is given. `scratch`
has the random characters of its name, or none where it cannot be written. -/
def loadParsed (load : Volume → Path → Except Raised α) (scratch : Option String) (disk : Volume)
    (path : Path)
    (content : Option String) (reads : List Path) : Parsed α :=
  match content with
  | none => ⟨reads, some (disk, path), load disk path⟩
  | some content =>
    match scratch with
    | none => ⟨reads, none, .error .os⟩
    | some random =>
      let written := disk.put (temporary path random) content
      ⟨reads, some (written, temporary path random), load written (temporary path random)⟩

/-- `parse`. -/
def parse (load : Volume → Path → Except Raised α) (limit : Nat) (scratch : Option String)
    (base : Path) (disk : Volume)
    (relative : String) (content : Option String) : Parsed α :=
  match resolve base disk relative with
  | .error e => ⟨[], none, .error e⟩
  | .ok path =>
    let reads := if content.isSome then [] else [path]
    match content.elim (disk.readText path) .ok with
    | .error e => ⟨reads, none, .error e⟩
    | .ok source =>
      match disk.checkIncludes limit path source with
      | (met, some e) => ⟨reads ++ met.filter (· ≠ path), none, .error e⟩
      | (met, none) => loadParsed load scratch disk path content (reads ++ met.filter (· ≠ path))

end ConfigRepository

/-! ## Facts -/

theorem except_bind {α β : Type} {first : Except Raised α} {second : α → Except Raised β} {result : β}
    (done : (first >>= second) = .ok result) :
    ∃ middle, first = .ok middle ∧ second middle = .ok result := by
  cases first with
  | error e => cases done
  | ok middle => exact ⟨middle, rfl, done⟩

section Facts
variable {base path file : Path} {disk : Volume} {relative content : String} {random : String}

theorem configDirectory_unsupported (base : Path) : isSupported (configDirectory base) = false := by
  have isName : name (configDirectory base) = "config" := by
    unfold name configDirectory
    rw [List.getLast?_concat]
    rfl
  unfold isSupported suffix
  rw [isName]
  decide +kernel

/-- A path of the repository is a file name below the directory, without climbing. -/
theorem path_ok (ok : ConfigRepository.path base relative = .ok path) :
    ∃ components, Plain components ∧ components ≠ [] ∧ path = configDirectory base ++ components ∧
      isSupported path = true := by
  unfold ConfigRepository.path at ok
  dsimp only at ok
  split at ok
  · cases ok
  · rename_i inside
    split at ok
    · cases ok
    · rename_i supported
      cases ok
      have supported : isSupported (configDirectory base ++ parts relative) = true :=
        not_not.mp supported
      refine ⟨parts relative, fun climbs => inside (.inr (.inr climbs)), ?_, rfl, supported⟩
      intro isDirectory
      rw [isDirectory, List.append_nil, configDirectory_unsupported] at supported
      cases supported

theorem volume_resolve_iff {real : Path} :
    disk.resolve path = .ok real ↔ disk.loops path = false ∧ disk.realpath path = real := by
  unfold Volume.resolve
  cases disk.loops path with
  | true => exact iff_of_false (fun never => by cases never) (fun never => by cases never.1)
  | false => exact ⟨fun same => ⟨rfl, Except.ok.inj same⟩, fun ⟨_, same⟩ => congrArg Except.ok same⟩

theorem resolve_ok (ok : ConfigRepository.resolve base disk relative = .ok path) :
    ∃ logical, ConfigRepository.path base relative = .ok logical ∧ embedsNull relative = false ∧
      disk.loops logical = false ∧ path = disk.realpath logical := by
  unfold ConfigRepository.resolve at ok
  split at ok
  · cases ok
  · rename_i logical isPath
    split at ok
    · cases ok
    · rename_i plain
      obtain ⟨ends, same⟩ := volume_resolve_iff.mp ok
      exact ⟨logical, isPath, Bool.of_not_eq_true plain, ends, same.symm⟩

/-- No directory that is entered lies deeper than the interpreter lets calls nest. -/
def Entries.Shallow (skips : String → Bool) : Entries → Nat → List Nat → Prop
  | .done, _, _ => True
  | .other rest, limit, ancestors => rest.Shallow skips limit ancestors
  | .file _ _ rest, limit, ancestors => rest.Shallow skips limit ancestors
  | .directory name identity listed entries rest, limit, ancestors =>
    (skips name.text = false → 0 < limit ∧
      (identity ∉ ancestors → listed = true →
        entries.Shallow skips (limit - 1) (identity :: ancestors))) ∧
    rest.Shallow skips limit ancestors

def DirectoryListing.Shallow (skips : String → Bool) (limit : Nat) : DirectoryListing → Prop
  | none => True
  | some (identity, entries) => entries.Shallow skips limit [identity]

section Listed
variable {skips wanted : String → Bool} {entries : Entries} {limit : Nat} {ancestors : List Nat}
variable {relative names : List FileName} {bytes : Option (List UInt8)}
  {found : List (List FileName × Option (List UInt8))}

/-- A file that is visited stands below the directory and has a wanted name. -/
theorem visit_named (visited : entries.visit skips wanted limit ancestors relative = .ok found)
    (member : (names, bytes) ∈ found) :
    ∃ front last, names = front ++ [last] ∧ wanted last.text = true := by
  induction entries generalizing limit ancestors relative found with
  | done =>
    cases visited
    cases member
  | other rest ih => exact ih visited member
  | file name content rest ih =>
    obtain ⟨later, isLater, visited⟩ := except_bind visited
    split at visited
    · cases visited
      exact ih isLater member
    · split at visited
      · rename_i isWanted
        cases visited
        obtain same | member := List.mem_cons.mp member
        · cases same
          exact ⟨relative, name, rfl, isWanted⟩
        · exact ih isLater member
      · cases visited
        exact ih isLater member
  | directory name identity listed inner rest ihInner ihRest =>
    unfold Entries.visit at visited
    split at visited
    · exact ihRest visited member
    · split at visited
      · cases visited
      · obtain ⟨first, isFirst, visited⟩ := except_bind visited
        obtain ⟨later, isLater, visited⟩ := except_bind visited
        cases visited
        obtain member | member := List.mem_append.mp member
        · split at isFirst
          · cases isFirst
            cases member
          · exact ihInner isFirst member
        · exact ihRest isLater member

theorem visit_iff : (∃ found, entries.visit skips wanted limit ancestors relative = .ok found) ↔
    entries.Shallow skips limit ancestors := by
  induction entries generalizing limit ancestors relative with
  | done => exact iff_of_true ⟨_, rfl⟩ trivial
  | other rest ih => exact ih
  | file name content rest ih =>
    refine Iff.trans ?_ (@ih limit ancestors relative)
    constructor
    · rintro ⟨found, visited⟩
      obtain ⟨later, isLater, _⟩ := except_bind visited
      exact ⟨later, isLater⟩
    · rintro ⟨later, isLater⟩
      unfold Entries.visit
      rw [isLater]
      change ∃ found, (if skips name.text = true then _ else _) = Except.ok found
      split
      · exact ⟨_, rfl⟩
      · split <;> exact ⟨_, rfl⟩
  | directory name identity listed inner rest ihInner ihRest =>
    unfold Entries.visit Entries.Shallow
    split
    · rename_i skipped
      rw [skipped]
      exact (@ihRest limit ancestors relative).trans
        ⟨fun shallow => ⟨fun never => (nomatch never), shallow⟩, And.right⟩
    · rename_i entered
      have entered := Bool.eq_false_iff.mpr entered
      cases limit with
      | zero =>
        exact iff_of_false (fun ⟨_, never⟩ => by cases never)
          (fun shallow => absurd (shallow.1 entered).1 (Nat.lt_irrefl 0))
      | succ limit =>
        rw [← @ihRest (limit + 1) ancestors relative]
        constructor
        · rintro ⟨found, visited⟩
          obtain ⟨first, isFirst, visited⟩ := except_bind visited
          obtain ⟨later, isLater, _⟩ := except_bind visited
          refine ⟨fun _ => ⟨Nat.succ_pos limit, fun fresh isListed => ?_⟩, later, isLater⟩
          rw [if_neg (not_or.mpr
            ⟨fresh, fun unlisted => by rw [isListed] at unlisted; cases unlisted⟩)] at isFirst
          exact ihInner.mp ⟨first, isFirst⟩
        · rintro ⟨below, later, isLater⟩
          have isFirst : ∃ first, (if identity ∈ ancestors ∨ listed = false then Except.ok []
              else inner.visit skips wanted limit (identity :: ancestors) (relative ++ [name])) =
                .ok first := by
            split
            · exact ⟨[], rfl⟩
            · rename_i entered'
              obtain ⟨fresh, isListed⟩ := not_or.mp entered'
              exact ihInner.mpr ((below entered).2 fresh (Bool.of_not_eq_false isListed))
          obtain ⟨first, isFirst⟩ := isFirst
          refine ⟨first ++ later, ?_⟩
          dsimp only
          rw [isFirst, isLater]
          rfl

theorem files_iff {listing : DirectoryListing} :
    (∃ found, listing.files skips wanted limit = .ok found) ↔ listing.Shallow skips limit := by
  cases listing with
  | none => exact iff_of_true ⟨_, rfl⟩ trivial
  | some directory => exact visit_iff

theorem list_iff {listing : DirectoryListing} :
    (∃ listed, ConfigRepository.list limit listing = .ok listed) ↔
      listing.Shallow (fun _ => false) limit := by
  rw [← @files_iff _ (fun name => isSupported [name])]
  constructor
  · rintro ⟨listed, isListed⟩
    obtain ⟨files, isFiles, _⟩ := except_bind isListed
    exact ⟨files, isFiles⟩
  · rintro ⟨files, isFiles⟩
    refine ⟨(files.map (fun file => posix file.1)).insertionSort (· ≤ ·), ?_⟩
    unfold ConfigRepository.list
    rw [isFiles]
    rfl

theorem mem_list {listing : DirectoryListing} {listed : List String} {text : String}
    (isListed : ConfigRepository.list limit listing = .ok listed) (member : text ∈ listed) :
    ∃ front last, text = posix (front ++ [last]) ∧ isSupported [last.text] = true := by
  obtain ⟨files, isFiles, isListed⟩ := except_bind isListed
  cases isListed
  have member := (List.perm_insertionSort _ _).mem_iff.mp member
  obtain ⟨⟨names, bytes⟩, isFile, rfl⟩ := List.mem_map.mp member
  unfold DirectoryListing.files at isFiles
  split at isFiles
  · cases isFiles
    cases isFile
  · obtain ⟨front, last, rfl, supported⟩ := visit_named isFiles isFile
    exact ⟨front, last, rfl, supported⟩

theorem posix_named : ∀ text ∈ names.map FileName.text, text ≠ "" ∧ text ≠ "." ∧ '/' ∉ text.toList := by
  intro text member
  obtain ⟨name, _, rfl⟩ := List.mem_map.mp member
  exact ⟨name.named.1, name.named.2.1, name.named.2.2.2.1⟩

theorem posix_joined (names : List FileName) :
    posix names = String.ofList (['/'].intercalate ((names.map FileName.text).map String.toList)) := by
  rw [List.map_map]
  rfl

theorem parts_posix (some_names : names ≠ []) : parts (posix names) = names.map FileName.text := by
  rw [posix_joined]
  exact parts_joined (fun none => some_names (List.map_eq_nil_iff.mp none)) posix_named

theorem posix_relative (names : List FileName) : isAbsolute (posix names) = false := by
  rw [posix_joined]
  exact joined_relative posix_named

/-- What the repository lists it can also resolve, unless it has become a loop. -/
theorem resolve_posix (base : Path) (disk : Volume) (front : List FileName) (last : FileName)
    (supported : isSupported [last.text] = true) : ∃ logical,
      ConfigRepository.path base (posix (front ++ [last])) = .ok logical ∧
      ConfigRepository.resolve base disk (posix (front ++ [last])) = disk.resolve logical ∧
      logical = configDirectory base ++ (front ++ [last]).map FileName.text := by
  have some_names : front ++ [last] ≠ [] := List.append_ne_nil_of_right_ne_nil _ (List.cons_ne_nil _ _)
  have isParts := parts_posix some_names
  have isName : name (configDirectory base ++ (front ++ [last]).map FileName.text) = name
    [last.text] := by
    unfold name
    rw [List.map_append, ← List.append_assoc, List.map_singleton, List.getLast?_concat]
    rfl
  have same : isSupported (configDirectory base ++ (front ++ [last]).map FileName.text) = true := by
    unfold isSupported suffix at supported ⊢
    rw [isName]
    exact supported
  have plain : ".." ∉ (front ++ [last]).map FileName.text := by
    intro member
    obtain ⟨found, _, climbs⟩ := List.mem_map.mp member
    exact found.named.2.2.1 climbs
  have some_text : posix (front ++ [last]) ≠ "" := by
    intro none
    rw [none] at isParts
    have empty : parts "" = [] := by decide +kernel
    rw [empty] at isParts
    exact some_names (List.map_eq_nil_iff.mp isParts.symm)
  have isPath : ConfigRepository.path base (posix (front ++ [last])) =
      .ok (configDirectory base ++ (front ++ [last]).map FileName.text) := by
    unfold ConfigRepository.path
    rw [isParts, posix_relative]
    dsimp only
    rw [if_neg (not_or.mpr ⟨Bool.false_ne_true, not_or.mpr ⟨some_text, plain⟩⟩),
      if_neg (not_not.mpr same)]
  have whole : embedsNull (posix (front ++ [last])) = false := by
    unfold embedsNull posix
    rw [String.toList_ofList]
    refine Bool.eq_false_iff.mpr (fun contained => ?_)
    obtain slash | ⟨piece, isPiece, member⟩ := mem_intercalate (List.contains_iff_mem.mp contained)
    · exact absurd slash (by decide)
    · obtain ⟨found, _, rfl⟩ := List.mem_map.mp isPiece
      exact found.named.2.2.2.2 member
  refine ⟨_, isPath, ?_, rfl⟩
  unfold ConfigRepository.resolve
  rw [isPath, whole]
  rfl

end Listed

/-- The file that was put is read with its line ends translated. -/
theorem readText_put :
    (disk.put path content).readText path = .ok (String.ofList (newlines content.toList)) := by
  unfold Volume.readText Volume.put
  dsimp only
  rw [if_pos rfl]
  dsimp only
  rw [fromUTF8?_bytes]

theorem node_put (other : file ≠ path) : (disk.put path content).node file = disk.node file :=
  if_neg other

theorem readText_node {disk' : Volume} (same : disk'.node file = disk.node file) :
    disk'.readText file = disk.readText file := by
  unfold Volume.readText
  rw [same]

theorem suffixOf_supported (supported : isSupported path = true) :
    suffixOf (name path).toList ≠ [] := by
  intro none
  unfold isSupported suffix at supported
  rw [none] at supported
  revert supported
  decide +kernel

/-- The temporary file stands beside the path and is of the same format. -/
theorem suffix_temporary (supported : isSupported path = true) :
    suffix (temporary path random) = suffix path := by
  have isName : name (temporary path random) = temporaryName path random := by
    unfold name temporary
    rw [List.getLast?_concat]
    rfl
  have isText : (temporaryName path random).toList =
      ("." ++ stem path ++ ".validate." ++ random).toList ++ suffixOf (name path).toList := by
    unfold temporaryName suffix
    rw [String.toList_append, String.toList_ofList]
  have some_front : ("." ++ stem path ++ ".validate." ++ random).toList ≠ [] := by
    rw [String.toList_append, String.toList_append, String.toList_append]
    exact List.append_ne_nil_of_left_ne_nil
      (List.append_ne_nil_of_left_ne_nil (List.append_ne_nil_of_left_ne_nil
      (by decide) _) _) _
  unfold suffix
  rw [isName, isText, suffixOf_append some_front (suffixOf_supported supported)]

theorem isYaml_temporary (supported : isSupported path = true) :
    isYaml (temporary path random) = isYaml path := by
  unfold isYaml
  rw [suffix_temporary supported]

theorem parent_temporary : parent (temporary path random) = parent path := List.dropLast_concat

/-- The include graph of a file, walked for its dependencies, holds nothing that stops the walk: no
YAML file that is not UTF-8, no directive with a null byte or into a loop of links, and no nesting
beyond the interpreter's limit. -/
structure Walkable (disk : Volume) (limit : Nat) (path : Path) : Prop where
  root : ¬ (isYaml path = true ∧ disk.readText path = .error .decode)
  directives : ∀ edges, disk.dependencyEdges path = .ok edges → ∀ met n directive rest,
    DepthFirst.Reaches disk.dependencyGraph path (DepthFirst.start limit edges)
      ⟨met, (n, directive) :: rest⟩ →
      embedsNull (unquoted directive.2) = false ∧
        disk.loops (join (parent directive.1) (unquoted directive.2)) = false ∧
      ∀ included, disk.included directive.1 (unquoted directive.2) = .ok included → included ∉ met →
        included ≠ path → n ≠ 0 ∧ ¬ (isYaml included = true ∧ disk.readText included = .error .decode)

theorem readText_error {e : Raised} (failed : disk.readText path = .error e) :
    e = .os ∨ e = .decode := by
  unfold Volume.readText at failed
  split at failed
  · split at failed
    · cases failed
    · cases failed
      exact .inr rfl
  · cases failed
    exact .inl rfl

theorem dependencyEdges_iff : (∃ edges, disk.dependencyEdges path = .ok edges) ↔
    ¬ (isYaml path = true ∧ disk.readText path = .error .decode) := by
  unfold Volume.dependencyEdges
  split
  · rename_i yaml
    cases reads : disk.readText path with
    | ok content => exact iff_of_true ⟨_, rfl⟩ (fun bad => by cases bad.2)
    | error e =>
      obtain rfl | rfl := readText_error reads
      · exact iff_of_true ⟨_, rfl⟩ (fun bad => by cases bad.2)
      · refine iff_of_false ?_ (fun fine => fine ⟨yaml, rfl⟩)
        rintro ⟨_, never⟩
        cases never
  · rename_i other
    exact iff_of_true ⟨_, rfl⟩ (fun bad => other bad.1)

/-- A target is found where it holds no null byte and its links come to an end. -/
theorem included_iff {relative : String} {included : Path} :
    disk.included path relative = .ok included ↔
    embedsNull relative = false ∧ disk.loops (join (parent path) relative) = false ∧
      disk.realpath (join (parent path) relative) = included := by
  unfold Volume.included
  cases embedsNull relative with
  | true => exact iff_of_false (fun never => by cases never) (fun never => by cases never.1)
  | false => exact volume_resolve_iff.trans ⟨fun same => ⟨rfl, same⟩, And.right⟩

/-- The dependencies of a file are found if and only if its include graph can be walked. -/
theorem dependencies_iff {limit : Nat}
    (resolved : ConfigRepository.resolve base disk relative = .ok path) :
    (∃ found, ConfigRepository.dependencies base disk limit relative = .ok found) ↔
      Walkable disk limit path := by
  have isTarget : ∀ directive,
    disk.dependencyGraph.target directive = disk.dependencyTarget directive := fun _ => rfl
  have isEdges : ∀ file, disk.dependencyGraph.edges file = disk.dependencyEdges file := fun _ => rfl
  unfold ConfigRepository.dependencies
  rw [resolved]
  dsimp only
  constructor
  · rintro ⟨found, done⟩
    cases opened : disk.dependencyEdges path with
    | error e =>
      rw [opened] at done
      cases done
    | ok edges =>
      rw [opened] at done
      dsimp only at done
      refine ⟨dependencyEdges_iff.mp ⟨edges, opened⟩, ?_⟩
      intro other same met n directive rest reaches
      rw [opened] at same
      cases same
      have halts := (DepthFirst.search_halts disk.dependencyGraph path limit edges).later reaches
      split at done
      · cases done
      · rename_i all passed
        rw [passed] at halts
        obtain ⟨node, target, fine⟩ := halts.head_fine
        rw [isTarget] at target
        have leads : disk.included directive.1 (unquoted directive.2) = .ok node := target
        obtain ⟨whole, ends, _⟩ := included_iff.mp leads
        refine ⟨whole, ends, fun included same unseen inner => ?_⟩
        rw [leads] at same
        cases same
        obtain ⟨nested, out, isOut⟩ := fine unseen inner
        exact ⟨nested, dependencyEdges_iff.mp ⟨out, isOut⟩⟩
  · intro walkable
    obtain ⟨edges, opened⟩ := dependencyEdges_iff.mpr walkable.root
    rw [opened]
    dsimp only
    obtain ⟨t, reaches, stops⟩ := DepthFirst.search_halts disk.dependencyGraph path limit edges
    cases result : DepthFirst.search disk.dependencyGraph path limit edges [] with
    | mk met fault =>
      rw [result] at stops
      cases fault with
      | none => exact ⟨met, rfl⟩
      | some e =>
        cases DepthFirst.next_stops stops with
        | edge n directive met rest e faulty =>
          obtain ⟨whole, ends, _⟩ := walkable.directives edges opened met n directive rest reaches
          have target : disk.dependencyTarget directive = _ := included_iff.mpr ⟨whole, ends, rfl⟩
          rw [isTarget, target] at faulty
          cases faulty
        | node n directive node met rest e target unseen inner why =>
          rw [isTarget] at target
          obtain ⟨_, _, fine⟩ := walkable.directives edges opened met n directive rest reaches
          obtain ⟨nested, readable⟩ := fine node target unseen inner
          obtain faulty | ⟨none, _⟩ := why
          · obtain ⟨out, isOut⟩ := dependencyEdges_iff.mpr readable
            rw [isEdges, isOut] at faulty
            cases faulty
          · exact absurd none nested

end Facts

end LocalFlow
