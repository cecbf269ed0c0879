import Mathlib
import LocalFlow.Includes
import LocalFlow.Library.Run

/-! The versions of the configuration files and the writes that depend on them, in `ConfigRepository` and in
`WorkspaceRepository`. -/
namespace LocalFlow
open Paths Transition

/-- The disk with its symbolic links. What a path leads to is no link, unless the links lead back to
themselves. -/
structure LinkedVolume extends Volume where
  linked : Path → Bool
  settled : ∀ path, loops path = false → linked (realpath path) = false ∧
    realpath (realpath path) = realpath path

/-- `path.exists()`, which is false of a loop. -/
def Volume.present (disk : Volume) (path : Path) : Except Raised Bool :=
  if disk.loops path then .ok false
  else
    match disk.node (disk.realpath path) with
    | .missing => .ok false
    | .denied => .error .os
    | .other | .file _ => .ok true

/-- `directory.mkdir(parents=True, exist_ok=True)`. -/
def Volume.mkdir (disk : Volume) (directory : Path) : Volume :=
  { disk with node := fun path =>
      match disk.node path with
      | .missing => if path.isPrefixOf directory then .other else .missing
      | node => node }

namespace LinkedVolume
variable (disk : LinkedVolume)

/-- `path.resolve() if path.is_symlink() else path`. -/
def entry (path : Path) (ends : disk.loops path = false) :
    { entry : Path // disk.linked entry = false } :=
  if isLink : disk.linked path = true then ⟨disk.realpath path, (disk.settled path ends).1⟩
  else ⟨path, Bool.eq_false_iff.mpr isLink⟩

/-- A symbolic link that cannot be resolved. -/
def circular (path : Path) : Bool := disk.linked path && disk.loops path

/-- `os.replace` of an entry that is no link by a file with a content, after the directories above
it are made. -/
def replace (entry : { entry : Path // disk.linked entry = false }) (content : String) : LinkedVolume :=
  { disk with
    toVolume := (disk.mkdir (disk.realpath (parent entry.1))).put (disk.realpath entry.1) content }

/-- A change from outside, which leaves the links. -/
def edit (node : Path → VolumeNode) : LinkedVolume := { disk with node }

end LinkedVolume

inductive WriteError where
  | raised (e : Raised)
  | conflict (version : String)
  deriving DecidableEq

section Write
variable (digest : List UInt8 → String)

/-- `_version`. -/
def version (content : String) : String := digest content.toUTF8.data.toList

/-- The comparison in `write`. A path with a null byte does not exist. -/
def compareVersion (disk : LinkedVolume) (relative : String) (logical : Path)
    (current : Except Raised String)
    (expected : Option String) : Except WriteError Unit :=
  match if embedsNull relative then .ok false else disk.present logical with
  | .error e => .error (.raised e)
  | .ok true =>
    match current with
    | .error e => .error (.raised e)
    | .ok text => if expected = some (version digest text) then .ok ()
        else .error (.conflict (version digest text))
  | .ok false => if expected = none ∨ expected = some "*" then .ok () else .error (.conflict "missing")

/-- The rest of `write`: the text it returns, read again, and the disk it leaves. `stored` tells
whether the file system takes the file, which it never does below a loop. -/
def storeText (disk : LinkedVolume) (relative : String) (logical : Path)
    (read : Volume → Except Raised String)
    (content : String) (stored : Bool) : Except WriteError String × LinkedVolume :=
  if embedsNull relative then (.error (.raised (.value "embedded null byte")), disk)
  else if disk.circular logical then (.error (.raised .loop), disk)
  else if takes : disk.loops logical = false ∧ stored = true then
    let next := disk.replace (disk.entry logical takes.1) content
    ((read next.toVolume).mapError .raised, next)
  else (.error (.raised .os), disk)

/-- `ConfigRepository.write`. -/
def ConfigRepository.write (base : Path) (disk : LinkedVolume) (relative content : String)
    (expected : Option String)
    (stored : Bool) : Except WriteError String × LinkedVolume :=
  match ConfigRepository.path base relative with
  | .error e => (.error (.raised e), disk)
  | .ok logical =>
    if embedsNull relative = false ∧ disk.circular logical = true then (.error (.raised .loop), disk)
    else
      match compareVersion digest disk relative logical
        (ConfigRepository.read base disk.toVolume relative) expected with
      | .error e => (.error e, disk)
      | .ok () => storeText disk relative logical
          (fun disk => ConfigRepository.read base disk relative) content stored

namespace WorkspaceRepository

/-- `_path`. -/
def path (base : Path) (relative : String) : Except Raised Path :=
  let text := relative.map (fun c => if c = '\\' then '/' else c)
  let components := parts text
  if isAbsolute text ∨ ".." ∈ components then .error (.value "workspace path escapes managed roots")
  else if components.head? ≠ some "config" then .error (.value "workspace path must start with config")
  else if components.length = 1 then .error (.value "workspace root cannot be modified")
  else .ok (base ++ components)

/-- The text of `read`. -/
def read (base : Path) (disk : Volume) (relative : String) : Except Raised String :=
  match path base relative with
  | .error e => .error e
  | .ok logical => if embedsNull relative ∨ disk.loops logical = true then .error .os
      else disk.readText (disk.realpath logical)

/-- `write`. -/
def write (base : Path) (disk : LinkedVolume) (relative content : String) (expected : Option String)
    (stored : Bool) :
    Except WriteError String × LinkedVolume :=
  match path base relative with
  | .error e => (.error (.raised e), disk)
  | .ok logical =>
    match compareVersion digest disk relative logical (read base disk.toVolume relative) expected with
    | .error e => (.error e, disk)
    | .ok () =>
      if ¬ isSupported logical then (.error (.raised (.value "unsupported workspace file type")), disk)
      else storeText disk relative logical (fun disk => read base disk relative) content stored

end WorkspaceRepository

inductive Repository where
  | config | workspace

namespace Repository
variable (repository : Repository) (base : Path)

def path (relative : String) : Except Raised Path :=
  match repository with
  | .config => ConfigRepository.path base relative
  | .workspace => WorkspaceRepository.path base relative

def read (disk : Volume) (relative : String) : Except Raised String :=
  match repository with
  | .config => ConfigRepository.read base disk relative
  | .workspace => WorkspaceRepository.read base disk relative

def write (disk : LinkedVolume) (relative content : String) (expected : Option String) (stored : Bool) :
    Except WriteError String × LinkedVolume :=
  match repository with
  | .config => ConfigRepository.write digest base disk relative content expected stored
  | .workspace => WorkspaceRepository.write digest base disk relative content expected stored

/-- A name leads to a file. -/
structure Names (disk : Volume) (relative : String) (file : Path) : Prop where
  whole : embedsNull relative = false
  leads : ∃ logical, repository.path base relative = .ok logical ∧ disk.resolve logical = .ok file

end Repository

/-- What happens to the files. -/
inductive ConfigAct where
  | read (repository : Repository) (relative : String)
  | write (repository : Repository) (relative content : String) (expected : Option String)
      (stored : Bool)
  | edit (node : Path → VolumeNode)

def LinkedVolume.apply (base : Path) (disk : LinkedVolume) : ConfigAct → LinkedVolume
  | .read _ _ => disk
  | .write repository relative content expected stored =>
    (repository.write digest base disk relative content expected stored).2
  | .edit node => disk.edit node

def ConfigStep (base : Path) (disk : LinkedVolume) (act : ConfigAct) (next : LinkedVolume) : Prop :=
  disk.apply digest base act = next

end Write

/-- Every line of the text ends as `newlines` leaves it. -/
def Unix (text : String) : Prop := '\r' ∉ text.toList

def VolumeNode.Unix : VolumeNode → Prop
  | .file (some bytes) => ∀ text, String.fromUTF8? ⟨bytes.toArray⟩ = some text → LocalFlow.Unix text
  | _ => True

/-- An act that puts no carriage return into a file. -/
def LeavesUnix (base file : Path) (disk : LinkedVolume) : ConfigAct → Prop
  | .read _ _ => True
  | .write repository relative content _ _ => repository.Names base disk.toVolume relative file →
      Unix content
  | .edit node => (node file).Unix

/-! ## Texts and bytes -/

section Texts
variable {text read : List Char}

theorem ReadAs.clean (readAs : ReadAs text read) : '\r' ∉ read := by
  induction readAs with
  | nil => exact List.not_mem_nil
  | keep c plain rest ih => exact fun member =>
    (List.mem_cons.mp member).elim (fun same => plain same.symm) ih
  | carriage rest ih => exact fun member => (List.mem_cons.mp member).elim (by decide) ih
  | both rest ih => exact fun member => (List.mem_cons.mp member).elim (by decide) ih

theorem ReadAs.same (readAs : ReadAs text read) (clean : '\r' ∉ text) : read = text := by
  induction readAs with
  | nil => rfl
  | keep c plain rest ih => rw [ih (fun member => clean (List.mem_cons_of_mem _ member))]
  | carriage rest ih => exact absurd List.mem_cons_self clean
  | both rest ih => exact absurd List.mem_cons_self clean

/-- Exactly the texts without a carriage return are read as they are. -/
theorem newlines_eq_iff : newlines text = text ↔ '\r' ∉ text := by
  constructor
  · intro same
    exact same ▸ (newlines_readAs text).clean
  · intro clean
    exact (newlines_readAs text).same clean

end Texts

/-- Two files that are read as the same text without a carriage return in either have the same bytes. -/
theorem node_unique {disk disk' : Volume} {file : Path} {text : String}
    (left : disk.readText file = .ok text)
    (right : disk'.readText file = .ok text) (unix : (disk.node file).Unix)
    (unix' : (disk'.node file).Unix) :
    disk.node file = disk'.node file := by
  have bytes : ∀ {disk : Volume}, disk.readText file = .ok text → (disk.node file).Unix →
      disk.node file = .file (some text.toUTF8.data.toList) := by
    intro disk reads unix
    unfold Volume.readText at reads
    split at reads
    · rename_i bytes isFile
      split at reads
      · rename_i raw decoded
        rw [isFile] at unix ⊢
        have same : newlines raw.toList = raw.toList := newlines_eq_iff.mpr (unix raw decoded)
        rw [same, String.ofList_toList] at reads
        cases reads
        unfold String.fromUTF8? at decoded
        split at decoded
        · cases decoded
          rfl
        · cases decoded
      · cases reads
    · cases reads
  rw [bytes left unix, bytes right unix']

/-! ## Writes -/

namespace LinkedVolume
variable (disk : LinkedVolume) (logical : Path) (content : String) (ends : disk.loops logical = false)

theorem realpath_entry : disk.realpath (disk.entry logical ends).1 = disk.realpath logical := by
  unfold entry
  split
  · exact (disk.settled logical ends).2
  · rfl

theorem node_replace : (disk.replace (disk.entry logical ends) content).node (disk.realpath logical) =
    .file (some content.toUTF8.data.toList) := by
  unfold replace Volume.put
  dsimp only
  rw [realpath_entry, if_pos rfl]

/-- A file elsewhere is the same after the write. -/
theorem node_replace_other {file : Path} (other : file ≠ disk.realpath logical)
    (bytes : Option (List UInt8)) :
    (disk.replace (disk.entry logical ends) content).node file = .file bytes ↔
      disk.node file = .file bytes := by
  unfold replace Volume.put Volume.mkdir
  dsimp only
  rw [realpath_entry, if_neg other]
  cases disk.node file with
  | missing =>
    dsimp only
    split <;> exact ⟨(nomatch ·), (nomatch ·)⟩
  | other | denied | file => exact Iff.rfl

end LinkedVolume

section Facts
variable {digest : List UInt8 → String} {base file : Path} {disk next : LinkedVolume}
  {repository other : Repository}
variable {relative content text : String} {expected : Option String} {stored : Bool}

theorem read_names {disk : Volume} (names : repository.Names base disk relative file) :
    repository.read base disk relative = disk.readText file := by
  obtain ⟨whole, logical, isPath, leads⟩ := names
  cases repository with
  | config =>
    have isPath : ConfigRepository.path base relative = .ok logical := isPath
    simp only [Repository.read, ConfigRepository.read, ConfigRepository.resolve, isPath, whole, leads]
    rfl
  | workspace =>
    have isPath : WorkspaceRepository.path base relative = .ok logical := isPath
    obtain ⟨ends, rfl⟩ := volume_resolve_iff.mp leads
    simp [Repository.read, WorkspaceRepository.read, isPath, whole, ends]

/-- What the comparison lets pass. -/
theorem compareVersion_ok {logical : Path} {current : Except Raised String}
    (passed : compareVersion digest disk relative logical current expected = .ok ()) :
    (∃ text, current = .ok text ∧ expected = some (version digest text)) ∨
      (embedsNull relative = true ∨ disk.present logical = .ok false) ∧
      (expected = none ∨ expected = some "*") := by
  unfold compareVersion at passed
  split at passed
  · cases passed
  · split at passed
    · cases passed
    · split at passed
      · rename_i isExpected
        exact .inl ⟨_, rfl, isExpected⟩
      · cases passed
  · rename_i absent
    split at passed
    · rename_i fresh
      refine .inr ⟨?_, fresh⟩
      split at absent
      · exact .inl ‹_›
      · exact .inr absent
    · cases passed

/-- What a write has done that did not raise before the file was replaced. -/
structure Stored (digest : List UInt8 → String) (repository : Repository) (base : Path)
    (disk : LinkedVolume)
    (relative content : String) (expected : Option String) (result : Except WriteError String)
    (next : LinkedVolume)
    (logical : Path) : Prop where
  isPath : repository.path base relative = .ok logical
  whole : embedsNull relative = false
  compared : (∃ text, repository.read base disk.toVolume relative = .ok text ∧
    expected = some (version digest text)) ∨
    disk.present logical = .ok false ∧ (expected = none ∨ expected = some "*")
  ends : disk.loops logical = false
  isNext : next = disk.replace (disk.entry logical ends) content
  isResult : result = (repository.read base next.toVolume relative).mapError .raised

theorem storeText_cases {logical : Path} {read : Volume → Except Raised String}
    {result : Except WriteError String}
    (stores : storeText disk relative logical read content stored = (result, next)) :
    next = disk ∧ (∃ e, result = .error e) ∨
      embedsNull relative = false ∧ ∃ ends, next = disk.replace (disk.entry logical ends) content ∧
        result = (read next.toVolume).mapError .raised := by
  unfold storeText at stores
  split at stores
  · cases stores
    exact .inl ⟨rfl, _, rfl⟩
  · rename_i whole
    split at stores
    · cases stores
      exact .inl ⟨rfl, _, rfl⟩
    · split at stores
      · rename_i takes
        cases stores
        exact .inr ⟨Bool.eq_false_iff.mpr whole, takes.1, rfl, rfl⟩
      · cases stores
        exact .inl ⟨rfl, _, rfl⟩

/-- A write has left the disk as it was, or has stored its content. -/
theorem write_cases {result : Except WriteError String}
    (written : repository.write digest base disk relative content expected stored = (result, next)) :
    next = disk ∧ (∃ e, result = .error e) ∨
      ∃ logical, Stored digest repository base disk relative content expected result next logical := by
  have compares : ∀ {logical : Path} {current : Except Raised String}, embedsNull relative = false →
      compareVersion digest disk relative logical current expected = .ok () →
      (∃ text, current = .ok text ∧ expected = some (version digest text)) ∨
        disk.present logical = .ok false ∧ (expected = none ∨ expected = some "*") := by
    intro logical current whole passed
    refine (compareVersion_ok passed).imp id (fun ⟨absent, fresh⟩ => ⟨absent.resolve_left ?_, fresh⟩)
    exact Bool.eq_false_iff.mp whole
  cases repository with
  | config =>
    simp only [Repository.write, ConfigRepository.write] at written
    split at written
    · cases written
      exact .inl ⟨rfl, _, rfl⟩
    · rename_i logical isPath
      split at written
      · cases written
        exact .inl ⟨rfl, _, rfl⟩
      · split at written
        · cases written
          exact .inl ⟨rfl, _, rfl⟩
        · rename_i passed
          obtain failed | ⟨whole, ends, isNext, isResult⟩ := storeText_cases written
          · exact .inl failed
          · exact .inr ⟨logical, isPath, whole, compares whole passed, ends, isNext, isResult⟩
  | workspace =>
    simp only [Repository.write, WorkspaceRepository.write] at written
    split at written
    · cases written
      exact .inl ⟨rfl, _, rfl⟩
    · rename_i logical isPath
      split at written
      · cases written
        exact .inl ⟨rfl, _, rfl⟩
      · rename_i passed
        split at written
        · cases written
          exact .inl ⟨rfl, _, rfl⟩
        · obtain failed | ⟨whole, ends, isNext, isResult⟩ := storeText_cases written
          · exact .inl failed
          · exact .inr ⟨logical, isPath, whole, compares whole passed, ends, isNext, isResult⟩

namespace Stored
variable {result : Except WriteError String} {logical : Path}

theorem names (stored : Stored digest repository base disk relative content expected result next
      logical) :
    repository.Names base next.toVolume relative (disk.realpath logical) :=
  ⟨stored.whole, logical, stored.isPath, stored.isNext ▸ volume_resolve_iff.mpr ⟨stored.ends, rfl⟩⟩

theorem node (stored : Stored digest repository base disk relative content expected result next
      logical) :
    next.node (disk.realpath logical) = .file (some content.toUTF8.data.toList) := by
  rw [stored.isNext]
  exact disk.node_replace logical content stored.ends

/-- The file is read as the content with its line ends translated. -/
theorem reads (stored : Stored digest repository base disk relative content expected result
      next logical)
    (names : other.Names base next.toVolume linked (disk.realpath logical)) :
    other.read base next.toVolume linked = .ok (String.ofList (newlines content.toList)) := by
  rw [read_names names]
  unfold Volume.readText
  rw [stored.node]
  dsimp only
  rw [fromUTF8?_bytes]

end Stored

/-- A write that returns has stored its content, and what it returns is what every name of the file
reads then. -/
theorem write_ok (written : repository.write digest base disk relative content expected stored =
      (.ok text, next)) :
    ∃ logical, Stored digest repository base disk relative content expected (.ok text) next logical ∧
      text = String.ofList (newlines content.toList) := by
  obtain ⟨_, e, never⟩ | ⟨logical, stored⟩ := write_cases written
  · cases never
  · refine ⟨logical, stored, ?_⟩
    have returned := stored.isResult
    rw [stored.reads stored.names] at returned
    cases returned
    rfl

/-- A write that raises has changed nothing. -/
theorem write_raises {e : WriteError}
    (written : repository.write digest base disk relative content expected stored = (.error e, next)) :
    next = disk := by
  obtain ⟨same, _⟩ | ⟨logical, stored⟩ := write_cases written
  · exact same
  · have returned := stored.isResult
    rw [stored.reads stored.names] at returned
    cases returned

theorem returned_iff : String.ofList (newlines content.toList) = content ↔ Unix content := by
  rw [Unix, ← newlines_eq_iff]
  constructor
  · intro same
    simpa using congrArg String.toList same
  · intro same
    rw [same, String.ofList_toList]

/-- A name of a file leads to it whatever is stored. -/
theorem names_iff {disk disk' : Volume} (same : disk'.resolve = disk.resolve) :
    repository.Names base disk' relative file ↔ repository.Names base disk relative file := by
  constructor
  · exact fun ⟨whole, leads⟩ => ⟨whole, same ▸ leads⟩
  · exact fun ⟨whole, leads⟩ => ⟨whole, same ▸ leads⟩

theorem unix_stored (unix : Unix content) :
    (VolumeNode.file (some content.toUTF8.data.toList)).Unix := by
  intro text decoded
  rw [fromUTF8?_bytes] at decoded
  exact Option.some.inj decoded ▸ unix

theorem unix_write {result : Except WriteError String}
    (written : repository.write digest base disk relative content expected stored = (result, next))
    (leaves : repository.Names base disk.toVolume relative file → Unix content)
    (unix : (disk.node file).Unix) :
    (next.node file).Unix := by
  obtain ⟨same, _⟩ | ⟨logical, stored⟩ := write_cases written
  · exact same ▸ unix
  · by_cases here : file = disk.realpath logical
    · subst here
      rw [stored.node]
      exact unix_stored (leaves
        ⟨stored.whole, logical, stored.isPath, volume_resolve_iff.mpr ⟨stored.ends, rfl⟩⟩)
    · have other := disk.node_replace_other logical content stored.ends here
      rw [stored.isNext]
      unfold VolumeNode.Unix
      split
      · rename_i bytes isFile
        rw [(other _).mp isFile] at unix
        exact unix
      · trivial

/-- A step after which the text of the file has no carriage return either. -/
theorem unix_step {act : ConfigAct}
    (step : Guarded (ConfigStep digest base) (LeavesUnix base file) disk act next)
    (unix : (disk.node file).Unix) : (next.node file).Unix := by
  obtain ⟨rfl, leaves⟩ := step
  cases act with
  | read repository relative => exact unix
  | edit node => exact leaves
  | write repository relative content expected stored =>
    exact @unix_write digest base file disk _ repository _ _ _ _ _ rfl leaves unix

theorem unix_run (run : Run (Guarded (ConfigStep digest base) (LeavesUnix base file)) disk acts next)
    (unix : (disk.node file).Unix) : (next.node file).Unix := by
  induction run with
  | nil => exact unix
  | cons head tail ih => exact ih (unix_step head unix)

theorem version_unique (injective : Function.Injective digest) :
    Function.Injective (version digest) := by
  intro left right same
  have bytes : left.toUTF8.data.toList = right.toUTF8.data.toList := injective same
  have decoded := fromUTF8?_bytes left
  rw [bytes, fromUTF8?_bytes] at decoded
  exact (Option.some.inj decoded).symm

/-- A write with the version that a read gave succeeds only where the file is read as the same text. -/
theorem conditional_reads {disk' : LinkedVolume} (injective : Function.Injective digest)
    (star : ∀ bytes, digest bytes ≠ "*")
    (written : other.write digest base disk' linked content (some (version digest text)) stored =
      (.ok result, next)) :
    other.read base disk'.toVolume linked = .ok text := by
  obtain ⟨logical, stored, _⟩ := write_ok written
  obtain ⟨current, isCurrent, same⟩ | ⟨_, absent | isStar⟩ := stored.compared
  · have same : text = current := version_unique injective (Option.some.inj same)
    exact same ▸ isCurrent
  · cases absent
  · exact absurd (Option.some.inj isStar) (star _)

/-- In a run in which no carriage return comes into the file: a write that succeeds is read as its
content by every name of the file, the file has one version for one content, and a write with the
version of an earlier read succeeds only where the file has the bytes of that read. -/
theorem versioned_writes (injective : Function.Injective digest)
    (star : ∀ bytes, digest bytes ≠ "*") {start s t : LinkedVolume}
    (before : Run (Guarded (ConfigStep digest base) (LeavesUnix base file)) start first s)
    (unix : (start.node file).Unix)
    (names : repository.Names base s.toVolume relative file)
    (reads : repository.read base s.toVolume relative = .ok text)
    (later : Run (Guarded (ConfigStep digest base) (LeavesUnix base file)) s second t) :
    (∀ (writer : Repository) name content expected stored returned next,
      writer.Names base t.toVolume name file →
      writer.write digest base t name content expected stored = (.ok returned, next) →
      (returned = content ↔ Unix content) ∧ ∀ (reader : Repository) known,
        reader.Names base next.toVolume known file →
        reader.read base next.toVolume known = .ok returned) ∧
    (∀ (reader : Repository) known current, reader.Names base t.toVolume known file →
      reader.read base t.toVolume known = .ok current →
      (version digest current = version digest text ↔ t.node file = s.node file)) ∧
    ∀ (writer : Repository) name content stored returned next, writer.Names base t.toVolume name file →
      writer.write digest base t name content (some (version digest text)) stored =
      (.ok returned, next) →
      t.node file = s.node file := by
  have unixS : (s.node file).Unix := unix_run before unix
  have unixT : (t.node file).Unix := unix_run later unixS
  rw [read_names names] at reads
  refine ⟨?_, ?_, ?_⟩
  · intro writer name content expected stored returned next names written
    obtain ⟨logical, stored, rfl⟩ := write_ok written
    have here : t.realpath logical = file := by
      obtain ⟨_, found, isPath, leads⟩ := names
      obtain rfl : found = logical := Except.ok.inj (isPath.symm.trans stored.isPath)
      exact (volume_resolve_iff.mp leads).2
    exact ⟨returned_iff, fun reader known names => stored.reads (here ▸ names)⟩
  · intro reader known current names current_reads
    rw [read_names names] at current_reads
    constructor
    · intro same
      have same : current = text := version_unique injective same
      exact node_unique (same ▸ current_reads) reads unixT unixS
    · intro same
      rw [readText_node same, reads] at current_reads
      cases current_reads
      rfl
  · intro writer name content stored returned next names written
    have again := conditional_reads injective star written
    rw [read_names names] at again
    exact node_unique again reads unixT unixS

end Facts

section Runs

def plainLinked (files : List (Path × String)) : LinkedVolume where
  toVolume := plainDisk files
  linked := fun _ => false
  settled := fun path _ => ⟨rfl, normal_plain (normal_isPlain path)⟩

/-- A digest without collisions. -/
def charDigest (bytes : List UInt8) : String :=
  String.ofList (bytes.map (fun byte => Char.ofNat (byte.toNat + 200)))

theorem toNat_charDigest (byte : UInt8) : (Char.ofNat (byte.toNat + 200)).toNat = byte.toNat + 200 := by
  have valid : (byte.toNat + 200).isValidChar := .inl (by have := byte.toNat_lt; omega)
  have small := byte.toNat_lt
  simp [Char.ofNat, valid, Char.ofNatAux, Char.toNat]
  omega

theorem charDigest_injective : Function.Injective charDigest := by
  intro left right same
  have chars := congrArg String.toList same
  simp only [charDigest, String.toList_ofList] at chars
  refine List.map_injective_iff.mpr (fun a b same => ?_) chars
  have numbers := congrArg Char.toNat same
  rw [toNat_charDigest, toNat_charDigest] at numbers
  exact UInt8.toNat_inj.mp (by omega)

theorem charDigest_star (bytes : List UInt8) : charDigest bytes ≠ "*" := by
  intro same
  have chars := congrArg String.toList same
  simp only [charDigest, String.toList_ofList] at chars
  cases bytes with
  | nil => cases chars
  | cons byte rest =>
    have first := congrArg Char.toNat (List.cons.inj chars).1
    rw [toNat_charDigest] at first
    change byte.toNat + 200 = 42 at first
    omega

/-- A file that one repository creates and the other changes. -/
theorem versioned_writes_plain : ∃ s next :
    LinkedVolume, ConfigRepository.read ["srv"] s.toVolume "a.yaml" = .ok "x: 1\n" ∧
    WorkspaceRepository.write charDigest ["srv"] s "config/a.yaml" "y: 2\n"
    (some (version charDigest "x: 1\n")) true =
      (.ok "y: 2\n", next) ∧
    Unix "y: 2\n" ∧ ConfigRepository.read ["srv"] next.toVolume "a.yaml" = .ok "y: 2\n" := by
  obtain ⟨s, isS⟩ : ∃ s,
    s = (plainLinked []).apply charDigest ["srv"] (.write .config "a.yaml" "x: 1\n" none true) :=
    ⟨_, rfl⟩
  have reads : Repository.config.read ["srv"] s.toVolume "a.yaml" = .ok "x: 1\n" := by
    rw [isS]
    decide +kernel
  have names : Repository.config.Names ["srv"] s.toVolume "a.yaml" ["srv", "config", "a.yaml"] := by
    rw [isS]
    exact ⟨by decide +kernel, ["srv", "config", "a.yaml"], by decide +kernel, by decide +kernel⟩
  have before : Run (Guarded (ConfigStep charDigest ["srv"])
    (LeavesUnix ["srv"] ["srv", "config", "a.yaml"])) (plainLinked [])
      [.write .config "a.yaml" "x: 1\n" none true] s :=
        .single ⟨isS.symm, fun _ => by unfold Unix; decide⟩
  obtain ⟨next, written⟩ : ∃ next,
    Repository.workspace.write charDigest ["srv"] s "config/a.yaml" "y: 2\n"
      (some (version charDigest "x: 1\n")) true = (.ok "y: 2\n", next) := by
    refine ⟨_, Prod.ext (?_ : _ = Except.ok "y: 2\n") rfl⟩
    rw [isS]
    decide +kernel
  have names' : Repository.workspace.Names ["srv"] s.toVolume "config/a.yaml"
    ["srv", "config", "a.yaml"] := by
    rw [isS]
    exact ⟨by decide +kernel, ["srv", "config", "a.yaml"], by decide +kernel, by decide +kernel⟩
  obtain ⟨writes, _⟩ :=
    versioned_writes charDigest_injective charDigest_star before trivial names reads (.nil s)
  obtain ⟨same, readers⟩ := writes _ _ _ _ _ _ _ names' written
  refine ⟨s, next, reads, written, same.mp rfl, readers .config "a.yaml" ?_⟩
  obtain ⟨logical, stored, _⟩ := write_ok written
  exact (names_iff (by rw [stored.isNext]; rfl)).mpr names

/-- What is written with a carriage return is read without it. A change of the line ends keeps the
version, and the write with that version overwrites it. -/
theorem carriage_returns_lost :
    (∃ next, ConfigRepository.write charDigest ["srv"]
      (plainLinked [(["srv", "config", "a.yaml"], "a\n")]) "a.yaml" "b\r\n"
        (some (version charDigest "a\n")) true = (.ok "b\n", next) ∧
          ConfigRepository.read ["srv"] next.toVolume "a.yaml" = .ok "b\n") ∧
    (plainLinked [(["srv", "config", "a.yaml"], "a\n")]).node ["srv", "config", "a.yaml"] ≠
      (plainLinked [(["srv", "config", "a.yaml"], "a\r\n")]).node ["srv", "config", "a.yaml"] ∧
    ConfigRepository.read ["srv"]
    (plainLinked [(["srv", "config", "a.yaml"], "a\n")]).toVolume "a.yaml" = .ok "a\n" ∧
    ∃ next, WorkspaceRepository.write charDigest ["srv"]
    (plainLinked [(["srv", "config", "a.yaml"], "a\r\n")]) "config/a.yaml" "c\n"
      (some (version charDigest "a\n")) true = (.ok "c\n", next) := by
  refine ⟨⟨_, Prod.ext (?_ : _ = Except.ok "b\n") rfl, by decide +kernel⟩,
    ?_, by decide +kernel, _, Prod.ext (?_ : _ = Except.ok "c\n") rfl⟩
  · decide +kernel
  · intro same
    have bytes := congrArg
      (fun node => match node with | .file (some bytes) => bytes.length | _ => 0) same
    exact absurd bytes (by decide)
  · decide +kernel

end Runs

end LocalFlow
