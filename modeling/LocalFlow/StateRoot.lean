import LocalFlow.ConfigFiles
import LocalFlow.Library.JsonText
import LocalFlow.Library.Run

/-! The state directory of an instance: its marker, and the file operations of
`initialize_state_root` one by one, so that a crash can come between any two of them. -/
namespace LocalFlow
open JsonText (Value)

def stateFormatVersion : Int := 1
def stateMarker : String := ".localflow-state.json"

/-! ## The marker -/

/-- What reading the marker gives. `raises` is an exception that `initialize_state_root` does not
catch. -/
inductive Marker where
  | invalid
  | raises (kind : String)
  | format (version : Int) (instanceId : Option (List Nat))
  deriving DecidableEq

/-- Digits with single underscores between them. -/
def readDigits : Bool → List Nat → Option (List Nat)
  | afterDigit, [] => if afterDigit then some [] else none
  | afterDigit, point :: rest =>
    match Numeral.decimalDigit point with
    | some digit => (readDigits true rest).map (digit :: ·)
    | none => if point = '_'.toNat ∧ afterDigit then readDigits false rest else none

def isSpacePoint (point : Nat) : Bool := isSpace (Char.ofNat point)

def stripPoints (points : List Nat) : List Nat :=
  ((points.dropWhile isSpacePoint).reverse.dropWhile isSpacePoint).reverse

def unsignedOf (points : List Nat) : Option Int :=
  (readDigits false points).bind (fun digits =>
    if JsonText.maxDigits < digits.length then none
    else some (digits.foldl (fun n digit => 10 * n + digit) 0 : Nat))

/-- `int(text)`. -/
def intOfPoints (points : List Nat) : Option Int :=
  match stripPoints points with
  | 45 :: digits => (unsignedOf digits).map (fun n => -n)
  | 43 :: digits => unsignedOf digits
  | digits => unsignedOf digits

/-- The classes of exceptions that are caught, and `OverflowError`. -/
inductive IntFault where
  | malformed | overflow

/-- `int(value)`. -/
def intOfValue : Value → Except IntFault Int
  | .bool b => .ok b.toInt
  | .int n => .ok n
  | .float (.finite q) => .ok (if q < 0 then -(-q).floor else q.floor)
  | .float .infinite => .error .overflow
  | .float .nan => .error .malformed
  | .str points => (intOfPoints points).elim (.error .malformed) .ok
  | .null | .arr _ | .obj _ => .error .malformed

def pointsOf (text : String) : List Nat := text.toList.map Char.toNat

def instanceIdOf (fields : List (List Nat × Value)) : Option (List Nat) :=
  match fields.lookup (pointsOf "instance_id") with
  | some (.str points) => if points = [] then none else some points
  | _ => none

/-- The marker of a text. Calls nest at least once. -/
def Marker.parse (limit : Nat) (text : List Char) : Marker :=
  match JsonText.loads (limit + 1) text with
  | .error .decode => .invalid
  | .error .recursion => .raises "RecursionError"
  | .ok (.obj fields) =>
    match (fields.lookup (pointsOf "format")).map intOfValue with
    | some (.ok version) => .format version (instanceIdOf fields)
    | some (.error .overflow) => .raises "OverflowError"
    | some (.error .malformed) | none => .invalid
  | .ok _ => .invalid

/-- The marker of a file, as far as its bytes can be read. -/
def Marker.read (limit : Nat) : Option (List UInt8) → Marker
  | none => .invalid
  | some bytes =>
    match String.fromUTF8? ⟨bytes.toArray⟩ with
    | none => .invalid
    | some text => .parse limit (newlines text.toList)

/-- The text of a new marker. -/
def markerText (instanceId : List Nat) : List Char :=
  "\x7b\"format\":1,\"instance_id\":".toList ++ JsonText.writeString instanceId ++ "\x7d\n".toList

def markerBytes (instanceId : List Nat) : List UInt8 :=
  (String.ofList (markerText instanceId)).toUTF8.data.toList

/-! ## The directory -/

/-- What stands at a path. A link to a directory or to a file counts as one, `dangling` is a link to
nothing. -/
inductive TreeNode where
  | dir
  | file (bytes : Option (List UInt8))
  | dangling
  deriving DecidableEq

/-- The state directory by the paths below it. It stands at the empty path itself. -/
abbrev StateTree := List String → Option TreeNode

namespace StateTree

def exists? (tree : StateTree) (path : List String) : Bool :=
  match tree path with
  | some .dir | some (.file _) => true
  | _ => false

def put (tree : StateTree) (path : List String) (node : Option TreeNode) : StateTree :=
  Function.update tree path node

/-- The longest name of a file. -/
def nameMax : Nat := 255

/-- `mkdir` of a path whose parent exists. -/
def mkdir (tree : StateTree) (existOk : Bool) (path : List String) : Option StateTree :=
  match tree path with
  | some .dir => if existOk then some tree else none
  | some _ => none
  | none => if (path.getLast?.getD "").utf8ByteSize ≤ nameMax then
      some (tree.put path (some .dir)) else none

/-- Rename an entry of the root into a directory. -/
def move (tree : StateTree) (name : String) (directory : List String) : StateTree := fun path =>
  match path with
  | [] => tree []
  | first :: rest =>
    if first = name then none
    else if directory ++ [name] <+: path then tree (name :: path.drop (directory.length + 1))
    else tree (first :: rest)

/-- `unlink(missing_ok=True)`. -/
def unlink (tree : StateTree) (path : List String) : Option StateTree :=
  match tree path with
  | some .dir => none
  | _ => some (tree.put path none)

/-- `os.replace` of a file. -/
def replace (tree : StateTree) (source target : List String) : Option StateTree :=
  match tree source, tree target with
  | none, _ | _, some .dir => none
  | some node, _ => some ((tree.put target (some node)).put source none)

/-- The marker, where it exists. -/
def marker (tree : StateTree) (limit : Nat) : Option Marker :=
  match tree [stateMarker] with
  | some (.file bytes) => some (Marker.read limit bytes)
  | some .dir => some .invalid
  | some .dangling | none => none

end StateTree

/-! ## `initialize_state_root` -/

def dynamicNames : List String := ["runtime", "logs", "exports", "cache"]

/-- The directories of `_create_state_directories`, parents first. -/
def stateDirectories : List (List String) :=
  [["runtime"], ["runtime", "instances"], ["logs"], ["logs", "service"], ["exports"], ["cache"],
    ["recovery"]]

inductive StateError where
  | os
  | uncaught (kind : String)
  | compatibility (version : Int)
  deriving DecidableEq

/-- What the process is about to do, with the instance identity it has read. -/
inductive StateProcess where
  | begins
  | reads
  | opens (reason : String) (kept : Option (List Nat))
  | enters (reason : String) (kept : Option (List Nat))
  | moves (directory : List String) (names : List String) (kept : Option (List Nat))
  | unlinks (kept : Option (List Nat))
  | creates (paths : List (List String)) (kept : Option (List Nat))
  | marks (kept : Option (List Nat))
  | writes (kept : Option (List Nat)) (instanceId : List Nat) (temporary : String)
  | replaces (kept : Option (List Nat)) (instanceId : List Nat) (temporary : String)
  | done
  | raised (e : StateError)
  deriving DecidableEq

/-- A random identity, as `secrets.token_hex` makes one. -/
structure InstanceToken where
  points : List Nat
  nonempty : points ≠ []
  valid : JsonText.Points points

/-- The clock and the random numbers of a step, or the end of the process and the begin of another
one. -/
inductive StateAct where
  | advance (stamp token : String) (instanceId : InstanceToken)
  | restart

def newMarkerName (token : String) : String := "." ++ stateMarker ++ "." ++ token ++ ".new"

def quarantineReason (version : Int) : String := "format-" ++ toString version

section Advance
variable (limit : Nat) (stamp token : String) (fresh : InstanceToken) (tree : StateTree)

def readMarker : StateProcess :=
  match tree.marker limit with
  | none => .creates stateDirectories none
  | some .invalid => .opens "invalid-marker" none
  | some (.raises kind) => .raised (.uncaught kind)
  | some (.format version instanceId) =>
    if stateFormatVersion < version then .raised (.compatibility version)
    else if version < stateFormatVersion then .opens (quarantineReason version) instanceId
    else .creates stateDirectories instanceId

/-- The next operation of the process. -/
def StateProcess.advance : StateProcess → StateProcess × StateTree
  | begins =>
    match tree.mkdir true [] with
    | none => (raised .os, tree)
    | some next => (reads, next)
  | reads => (readMarker limit tree, tree)
  | opens reason kept =>
    match tree.mkdir true ["recovery"] with
    | none => (raised .os, tree)
    | some next => (enters reason kept, next)
  | enters reason kept =>
    match tree.mkdir false ["recovery", stamp ++ "-" ++ reason] with
    | none => (raised .os, tree)
    | some next => (moves ["recovery", stamp ++ "-" ++ reason] dynamicNames kept, next)
  | moves directory (name :: names) kept =>
    (moves directory names kept, if tree [name] = none then tree else tree.move name directory)
  | moves _ [] kept => (unlinks kept, tree)
  | unlinks kept =>
    match tree.unlink [stateMarker] with
    | none => (raised .os, tree)
    | some next => (creates stateDirectories kept, next)
  | creates (path :: paths) kept =>
    match tree.mkdir true path with
    | none => (raised .os, tree)
    | some next => (creates paths kept, next)
  | creates [] kept => (marks kept, tree)
  | marks kept =>
    if tree.exists? [stateMarker] ∧ kept ≠ none then (done, tree)
    else
      match tree [newMarkerName token] with
      | some .dir => (raised .os, tree)
      | _ => (writes kept (kept.getD fresh.points) (newMarkerName token),
          tree.put [newMarkerName token] (some (.file (some []))))
  | writes kept instanceId temporary =>
    (replaces kept instanceId temporary,
      tree.put [temporary] (some (.file (some (markerBytes instanceId)))))
  | replaces _ _ temporary =>
    match tree.replace [temporary] [stateMarker] with
    | none => (raised .os, tree)
    | some next => (done, next)
  | done => (done, tree)
  | raised e => (raised e, tree)

end Advance

/-- A step of the machine. A process that starts again finds the files as they are. -/
def stateStep (limit : Nat) (s : StateProcess × StateTree) : StateAct → StateProcess × StateTree
  | .advance stamp token instanceId => s.1.advance limit stamp token instanceId s.2
  | .restart => (.begins, s.2)

end LocalFlow
