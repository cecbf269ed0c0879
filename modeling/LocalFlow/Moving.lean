import LocalFlow.Library.FileTree
import LocalFlow.Library.Substitution
import LocalFlow.Versioning

/-! `ConfigRepository.move`: a configuration goes to another path, its include directives are
written anew for the new directory, and the old entry goes away. -/
namespace LocalFlow
open Paths FileTrees Scanning

/-- The disk of the repository. A file without bytes cannot be opened. -/
abbrev ConfigTree := FileTree (Option (List UInt8))

namespace ConfigTree
variable (tree : ConfigTree) (limit : Nat)

/-- The disk as the reading functions see it. -/
def volume : Volume where
  realpath := tree.resolve limit []
  loops := fun path => tree.loops (limit + 1) [] (tree.resolve limit [] path)
  node := fun place =>
    match tree.entry place with
    | none => .missing
    | some (.file bytes) => .file bytes
    | some _ => .other

/-- `path.exists()`. -/
def present (path : Path) : Bool :=
  match tree.locate limit [] path with
  | some place => (tree.entry place).isSome
  | none => false

/-- The place of the directory entry that a path names. -/
def entryPlace (path : Path) : Option Path :=
  (tree.locate limit [] (parent path)).map (fun directory => directory ++ [name path])

/-- `path.is_symlink()`. -/
def isSymlink (path : Path) : Bool :=
  match (tree.entryPlace limit path).bind tree.entry with
  | some (.link _) => true
  | _ => false

end ConfigTree

/-! ## The directives -/

/-- `"!include " + " ".join(rewritten)`. -/
def directive (rewritten : List String) : List Char :=
  "!include ".toList ++ [' '].intercalate (rewritten.map String.toList)

/-- The quote that begins a word. -/
def quoteOf (raw : String) : String :=
  match raw.toList with
  | c :: _ => if isQuote c then String.ofList [c] else ""
  | [] => ""

/-- A word of a directive as it is written for the new directory. -/
def rewrittenWord (disk : Volume) (source target : Path) (raw : String) : String :=
  let included := disk.realpath (join (parent source) (unquoted raw))
  let moved := (relpath included (parent target)).map (fun c => if c = '\\' then '/' else c)
  quoteOf raw ++ moved ++ quoteOf raw

def relocateWord (disk : Volume) (source target : Path) (raw : String) : Except Raised String :=
  match disk.included source (unquoted raw) with
  | .error e => .error e
  | .ok _ => .ok (rewrittenWord disk source target raw)

/-- `relocate`. -/
def relocate (disk : Volume) (source target : Path) (group : List String) : Except Raised (List Char) :=
  (group.mapM (relocateWord disk source target)).map directive

/-! ## The move -/

/-- What the system lets the move do. It makes `makes` directories at most. -/
structure Permits where
  makes : Nat
  stores : Bool
  renames : Bool
  removes : Bool
  rereads : Bool

/-- What goes to the new path: the symbolic link itself or a file with this text. -/
inductive Cargo where
  | link
  | file (content : List Char)

/-- `os.rename`, which leaves an entry alone that is renamed to itself. -/
def ConfigTree.renamed (tree : ConfigTree) (old place : Path)
    (entry : Entry (Option (List UInt8))) : ConfigTree :=
  if old = place then tree else (tree.put place entry).remove old

namespace ConfigRepository
section Move
variable (digest : List UInt8 → String) (base : Path) (limit : Nat) (permits : Permits)

/-- What `move` checks and computes before it changes anything. -/
def checkMove (tree : ConfigTree) (source target expected : String) (sourcePath targetPath : Path) :
    Except WriteError Cargo :=
  match read base (tree.volume limit) source with
  | .error e => .error (.raised e)
  | .ok current =>
    if version digest current ≠ expected then .error (.conflict (version digest current))
    else if embedsNull target = false ∧ tree.present limit targetPath = true then .error (.raised .os)
    else if tree.isSymlink limit sourcePath then .ok .link
    else if parent sourcePath ≠ parent targetPath ∧ isYaml sourcePath = true then
      match substituted includeMatch
        (relocate (tree.volume limit) sourcePath targetPath) current.toList with
      | .error e => .error (.raised e)
      | .ok content => .ok (.file content)
    else .ok (.file current.toList)

/-- `return self.read(target)`. -/
def reread (tree : ConfigTree) (target : String) : Except WriteError String × ConfigTree :=
  if permits.rereads then ((read base (tree.volume limit) target).mapError .raised, tree)
    else (.error (.raised .os), tree)

/-- `source_path.rename(target_path)`. -/
def renameLink (tree : ConfigTree) (target : String) (sourcePath place : Path) :
    Except WriteError String × ConfigTree :=
  match tree.entryPlace limit sourcePath with
  | none => (.error (.raised .os), tree)
  | some old =>
    match tree.entry old with
    | some entry =>
      if permits.renames then reread base limit permits (tree.renamed old place entry) target
      else (.error (.raised .os), tree)
    | none => (.error (.raised .os), tree)

/-- `source_path.unlink()`. -/
def unlinkSource (tree : ConfigTree) (target : String) (sourcePath : Path) :
    Except WriteError String × ConfigTree :=
  match tree.entryPlace limit sourcePath with
  | none => (.error (.raised .os), tree)
  | some old =>
    if permits.removes ∧ (tree.entry old).isSome ∧ tree.isDirectory old = false then
      reread base limit permits (tree.remove old) target
    else (.error (.raised .os), tree)

/-- What `move` changes: the directories of the new path, the entry there and the old one. -/
def transfer (tree : ConfigTree) (target : String) (sourcePath targetPath : Path) (cargo : Cargo) :
    Except WriteError String × ConfigTree :=
  if (parent targetPath).any embedsNull then (.error (.raised (.value "embedded null byte")), tree)
  else
    match FileTree.makeDirectories limit tree permits.makes [] (parent targetPath) with
    | (made, none) => (.error (.raised .os), made)
    | (made, some directory) =>
      if embedsNull (name targetPath) then (.error (.raised (.value "embedded null byte")), made)
      else
        let place := directory ++ [name targetPath]
        match cargo with
        | .link => renameLink base limit permits made target sourcePath place
        | .file content =>
          if permits.stores then
            unlinkSource base limit permits
              (made.put place (.file (some (String.ofList content).toUTF8.data.toList)))
              target sourcePath
          else (.error (.raised .os), made)

/-- `move`. -/
def move (tree : ConfigTree) (source target expected : String) :
    Except WriteError String × ConfigTree :=
  match path base source with
  | .error e => (.error (.raised e), tree)
  | .ok sourcePath =>
    match path base target with
    | .error e => (.error (.raised e), tree)
    | .ok targetPath =>
      if sourcePath = targetPath then ((read base (tree.volume limit) source).mapError .raised, tree)
      else
        match checkMove digest base limit tree source target expected sourcePath targetPath with
        | .error e => (.error e, tree)
        | .ok cargo => transfer base limit permits tree target sourcePath targetPath cargo

end Move
end ConfigRepository

end LocalFlow
