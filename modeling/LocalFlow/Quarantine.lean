import LocalFlow.Library.Lookup
import LocalFlow.StateRoot
import LocalFlow.Versioning
import Mathlib.Data.List.GetD

/-! What becomes of a state directory in every run of `initialize_state_root`, with crashes between
its operations: the data it finds stay where they are or go below `recovery`, and the identity of
the instance is kept. -/
namespace LocalFlow
open JsonText (Value Points)
open Quoted (quote)
open Transition

/-! ## The marker that is written is read back -/

/-- A field whose name is written plainly. -/
theorem readFields_named {limit depth n : Nat} {fields : List (List Nat × Value)} {name : String}
    {rest : List Char}
    (valid : Points (pointsOf name)) (plain : (pointsOf name).flatMap JsonText.escape = name.toList) :
    JsonText.readFields limit (n + 1) depth fields (quote :: (name.toList ++ quote :: ':' :: rest)) =
      match JsonText.readValue limit n depth (JsonText.skip rest) with
      | .error fault => .error fault
      | .ok (value, rest) =>
        match JsonText.skip rest with
        | '\x7d' :: rest => .ok (.obj (JsonText.putField fields (pointsOf name) value), rest)
        | ',' :: rest =>
          JsonText.readFields limit n depth (JsonText.putField fields (pointsOf name) value)
            (JsonText.skip rest)
        | _ => .error .decode := by
  have key := JsonText.readBody_writeString valid (':' :: rest)
  rw [plain] at key
  rw [JsonText.readFields, if_pos rfl, key]
  rfl

theorem loads_marker (limit : Nat) {points : List Nat} (valid : Points points) :
    JsonText.loads (limit + 1) (markerText points) =
      .ok (.obj [(pointsOf "format", .int 1), (pointsOf "instance_id", .str points)]) := by
  have tail : "\x7d\n".toList = ['\x7d', '\n'] := rfl
  have shape : markerText points = '\x7b' :: quote ::
    ("format".toList ++ quote :: ':' :: '1' :: ',' :: quote ::
      ("instance_id".toList ++ quote :: ':' :: quote ::
        (points.flatMap JsonText.escape ++ quote :: ['\x7d', '\n']))) := by
    have head : "\x7b\"format\":1,\"instance_id\":".toList = '\x7b' :: quote ::
      ("format".toList ++ quote :: ':' :: '1' ::
      ',' :: quote :: ("instance_id".toList ++ [quote, ':'])) := by decide +kernel
    refine (congrArg₂ (fun before after => before ++ JsonText.writeString points ++
      after) head tail).trans ?_
    simp only [JsonText.writeString, List.append_assoc, List.cons_append, List.nil_append]
  have body := JsonText.readBody_writeString valid ['\x7d', '\n']
  generalize points.flatMap JsonText.escape ++ quote :: ['\x7d', '\n'] = rest at body shape
  have value (n : Nat) : JsonText.readValue (limit + 1) (n + 1) 1 (quote :: rest) = .ok
    (.str points, ['\x7d', '\n']) := by
    rw [JsonText.readValue, if_pos rfl, body]
  have number (n : Nat) (rest : List Char) :
      JsonText.readValue (limit + 1) (n + 1) 1 ('1' :: ',' :: rest) = .ok (.int 1, ',' :: rest) := rfl
  obtain ⟨n, fuel⟩ : ∃ n, (markerText points).length + 1 = n + 4 := ⟨(markerText points).length - 3, by
    rw [shape]
    simp only [List.length_cons, List.length_append]
    omega⟩
  have skipped (c : Char) (rest : List Char) (solid : c.toNat ∉ [32, 9, 10, 13]) :
      JsonText.skip (c :: rest) = c :: rest := List.dropWhile_cons_of_neg (by simpa using solid)
  have first : JsonText.readValue (limit + 1) (n + 4) 0 (JsonText.skip (markerText points)) =
      .ok (.obj [(pointsOf "format", .int 1), (pointsOf "instance_id", .str points)], ['\n']) := by
    rw [shape, skipped _ _ (by decide), JsonText.readValue, if_neg (by decide), if_pos rfl,
      if_neg (by omega),
      skipped quote _ (by decide)]
    show JsonText.readFields (limit + 1) (n + 3) 1 [] _ = _
    rw [readFields_named ⟨by decide, by decide⟩ (by decide), skipped '1' _ (by decide), number]
    dsimp only
    rw [skipped ',' _ (by decide)]
    show JsonText.readFields (limit + 1) (n + 2) 1 _ _ = _
    rw [skipped quote _ (by decide), readFields_named ⟨by decide, by decide⟩ (by decide),
      skipped quote _ (by decide), value]
    rfl
  rw [JsonText.loads, fuel, first]
  rfl

theorem digitChar_mem (digit : Nat) : Numeral.digitChar digit ∈ "0123456789abcdef".toList := by
  unfold Numeral.digitChar
  by_cases short : digit < "0123456789abcdef".toList.length
  · rw [List.getD_eq_getElem _ _ short]
    exact List.getElem_mem short
  · rw [List.getD_eq_default _ _ (not_lt.mp short)]
    decide

theorem unit_unix (n : Nat) : '\r' ∉ Quoted.unit n := by
  intro member
  have digits : '\r' ∈ Numeral.text 16 4 n := by simpa [Quoted.unit, Quoted.slash] using member
  obtain ⟨digit, _, same⟩ := List.mem_map.mp digits
  have listed := digitChar_mem digit
  rw [same] at listed
  exact absurd listed (by decide)

theorem escape_unix (n : Nat) : '\r' ∉ JsonText.escape n := by
  unfold JsonText.escape
  split
  · exact unit_unix n
  · unfold Quoted.escape
    split
    · rename_i letter found
      have known := Lookup.mem found
      simp only [Quoted.letters, List.mem_cons, Prod.mk.injEq, List.not_mem_nil, or_false] at known
      rcases known with ⟨_, rfl⟩ | ⟨_, rfl⟩ | ⟨_, rfl⟩ | ⟨_, rfl⟩ | ⟨_, rfl⟩ | ⟨_, rfl⟩ | ⟨_,
        rfl⟩ <;> decide
    split
    · rename_i printable
      intro member
      rw [← List.mem_singleton.mp member] at printable
      exact absurd printable (by decide)
    split
    · exact unit_unix _
    · exact fun member => (List.mem_append.mp member).elim (unit_unix _) (unit_unix _)

theorem markerText_unix (points : List Nat) : '\r' ∉ markerText points := by
  intro member
  rcases List.mem_append.mp member with front | last
  · rcases List.mem_append.mp front with first | written
    · exact absurd first (by decide +kernel)
    · rcases List.mem_append.mp written with inside | last
      · cases inside with
        | tail _ inside =>
          obtain ⟨point, _, escaped⟩ := List.mem_flatMap.mp inside
          exact escape_unix point escaped
      · exact absurd last (by decide)
  · exact absurd last (by decide)

/-- A file that was written as text is read as that text. -/
theorem marker_text (limit : Nat) (text : String) :
    Marker.read limit (some text.toUTF8.data.toList) = .parse limit (newlines text.toList) := by
  rw [Marker.read, fromUTF8?_bytes]

theorem marker_read (limit : Nat) {points : List Nat} (valid : Points points) (nonempty : points ≠ []) :
    Marker.read limit (some (markerBytes points)) = .format 1 (some points) := by
  have unix : newlines (String.ofList (markerText points)).toList = markerText points := by
    rw [String.toList_ofList]
    exact newlines_eq_iff.mpr (markerText_unix points)
  have named : instanceIdOf [(pointsOf "format", .int 1), (pointsOf "instance_id", .str points)] =
    some points := by
    have found : [(pointsOf "format", Value.int 1), (pointsOf "instance_id", .str points)].lookup
      (pointsOf "instance_id") =
        some (.str points) := by
      have apart : (pointsOf "instance_id" == pointsOf "format") = false := by decide
      rw [List.lookup_cons, apart, List.lookup_cons, beq_self_eq_true]
    rw [instanceIdOf, found]
    exact if_neg nonempty
  rw [markerBytes, marker_text, unix, Marker.parse, loads_marker limit valid]
  dsimp only
  rw [named]
  rfl

/-- An identity that was read can be written. -/
theorem instanceIdOf_valid {fields : List (List Nat × Value)} {points : List Nat}
    (sound : (Value.obj fields).Sound)
    (named : instanceIdOf fields = some points) : Points points ∧ points ≠ [] := by
  unfold instanceIdOf at named
  split at named
  · rename_i found
    split at named
    · cases named
    · rename_i nonempty
      cases named
      obtain ⟨before, after, same, _⟩ := List.lookup_eq_some_iff.mp found
      exact ⟨sound _ (same ▸ List.mem_append_right _ List.mem_cons_self) _ rfl, nonempty⟩
  · cases named

theorem marker_valid {limit : Nat} {bytes : Option (List UInt8)} {version : Int} {points : List Nat}
    (read : Marker.read limit bytes = .format version (some points)) : Points points ∧ points ≠ [] := by
  unfold Marker.read at read
  split at read
  · cases read
  split at read
  · cases read
  unfold Marker.parse at read
  split at read
  · cases read
  · cases read
  · rename_i fields loaded
    split at read
    · injection read with _ named
      exact instanceIdOf_valid (JsonText.loads_sound loaded) named
    · cases read
    · cases read
    · cases read
  · cases read

/-! ## The operations -/

theorem newMarkerName_ne {name : String} (plain : name.toList.take 2 ≠ ['.', '.']) (token : String) :
    newMarkerName token ≠ name := by
  rintro rfl
  apply plain
  rw [newMarkerName, String.toList_append, String.toList_append, String.toList_append]
  rfl

namespace StateTree
variable {tree : StateTree} {path other : List String} {node : Option TreeNode} {limit : Nat}

theorem put_self : tree.put path node path = node := Function.update_self ..

theorem put_other (apart : other ≠ path) : tree.put path node other = tree other :=
  Function.update_of_ne apart ..

/-- Nothing, or a directory. -/
def Clear (tree : StateTree) (path : List String) : Prop := tree path = none ∨ tree path = some .dir

/-- What `mkdir` leaves where the path is clear. -/
def made (tree : StateTree) (path : List String) : StateTree :=
  if tree path = none then tree.put path (some .dir) else tree

theorem made_other (apart : other ≠ path) : tree.made path other = tree other := by
  unfold made
  split
  · exact put_other apart
  · rfl

theorem made_self (clear : tree.Clear path) : tree.made path path = some .dir := by
  unfold made
  split
  · exact put_self
  · rename_i taken
    exact clear.resolve_left taken

theorem mkdir_clear (clear : tree.Clear path) (short : (path.getLast?.getD "").utf8ByteSize ≤ nameMax) :
    tree.mkdir true path = some (tree.made path) := by
  rcases clear with free | isDir
  · rw [mkdir, free, made, if_pos free]
    exact if_pos short
  · have same : tree.made path = tree := if_neg (by rw [isDir]; nofun)
    rw [same, mkdir, isDir]
    rfl

theorem marker_congr {tree' : StateTree} (same : tree' [stateMarker] = tree [stateMarker]) :
    tree'.marker limit = tree.marker limit := by
  rw [marker, marker, same]

theorem exists?_iff (limit : Nat) : tree.exists? [stateMarker] = true ↔ tree.marker limit ≠ none := by
  unfold exists? marker
  cases tree [stateMarker] with
  | none => simp
  | some node => cases node <;> simp

end StateTree

/-- What the process holds of an identity. -/
def StateProcess.kept : StateProcess → Option (List Nat)
  | .opens _ kept | .enters _ kept | .moves _ _ kept | .unlinks kept | .creates _ kept | .marks
      kept | .writes kept _ _
  | .replaces kept _ _ => kept
  | _ => none

/-- A step that meets no obstacle: paths to be created hold nothing or a directory, names are new
and short enough, the marker can be judged, and no process ends while it alone knows the identity.
-/
def Smooth (limit : Nat) (s : StateProcess × StateTree) : StateAct → Prop
  | .restart => s.1.kept = none ∨ s.2.exists? [stateMarker] = true
  | .advance stamp token _ =>
    match s.1 with
    | .begins => s.2.Clear []
    | .reads => ∀ kind, s.2.marker limit ≠ some (.raises kind)
    | .opens _ _ => s.2.Clear ["recovery"]
    | .enters reason _ => (stamp ++ "-" ++ reason).utf8ByteSize ≤ StateTree.nameMax ∧
        ∀ rest, s.2 ("recovery" :: (stamp ++ "-" ++ reason) :: rest) = none
    | .unlinks _ => s.2 [stateMarker] ≠ some .dir
    | .creates (path :: _) _ => s.2.Clear path
    | .marks _ => s.2 [newMarkerName token] = none
    | _ => True

/-- The directories that are not to be made any more are there. -/
def Made (todo : List (List String)) (tree : StateTree) : Prop :=
  ∀ path ∈ stateDirectories, path ∉ todo → tree path = some .dir

theorem stateDirectories_short : ∀ path ∈ stateDirectories,
    (path.getLast?.getD "").utf8ByteSize ≤ StateTree.nameMax ∧ path ≠ [] ∧ path ≠ [stateMarker] := by
  decide

section Steps
variable {limit : Nat} {D : StateTree → Prop} {tree initial : StateTree} {points : List Nat}
  {kept id : Option (List Nat)}
  {path : List String} {todo : List (List String)} {p : StateProcess} {act : StateAct}

/-- A property of the tree that new directories of the state do not touch. -/
def Growing (D : StateTree → Prop) : Prop :=
  ∀ tree path, path ∈ [] :: stateDirectories → tree path = none → D tree → D (tree.put path (some .dir))

theorem Growing.made (growing : Growing D) (member : path ∈ [] :: stateDirectories)
    (data : D tree) : D (tree.made path) := by
  unfold StateTree.made
  split
  · rename_i free
    exact growing tree path member free data
  · exact data

theorem Made.step (before : Made (path :: todo) tree) (clear : tree.Clear path) :
    Made todo (tree.made path) := by
  intro other member missing
  by_cases same : other = path
  · subst same
    exact StateTree.made_self clear
  · rw [StateTree.made_other same]
    exact before other member (by simp [same, missing])

/-- The marker names the instance, and the process does no more than make what is missing. -/
def Keeping (points : List Nat) : StateProcess → StateTree → Prop
  | .begins, _ => True
  | .reads, tree => tree [] = some .dir
  | .creates todo kept, tree => tree [] = some .dir ∧ kept = some points ∧ todo ⊆ stateDirectories ∧
      Made todo tree
  | .marks kept, tree => tree [] = some .dir ∧ kept = some points ∧ Made [] tree
  | .done, tree => tree [] = some .dir ∧ Made [] tree
  | _, _ => False

theorem keeping_step (growing : Growing D)
    (marked : tree.marker limit = some (.format 1 (some points))) (data : D tree)
    (keeping : Keeping points p tree) (smooth : Smooth limit (p, tree) act) :
    Keeping points (stateStep limit (p, tree) act).1 (stateStep limit (p, tree) act).2 ∧
      (stateStep limit (p, tree) act).2 [stateMarker] = tree [stateMarker] ∧
        D (stateStep limit (p, tree) act).2 := by
  cases act with
  | restart => exact ⟨trivial, rfl, data⟩
  | advance stamp token fresh =>
    cases p with
    | begins =>
      have clear : tree.Clear [] := smooth
      simp only [stateStep, StateProcess.advance, StateTree.mkdir_clear clear (by decide)]
      exact ⟨StateTree.made_self clear, StateTree.made_other (by decide),
        growing.made List.mem_cons_self data⟩
    | reads =>
      have judged : readMarker limit tree = .creates stateDirectories (some points) := by
        rw [readMarker, marked]
        rfl
      simp only [stateStep, StateProcess.advance, judged]
      exact ⟨⟨keeping, rfl, fun _ member => member, fun path member missing =>
        absurd member missing⟩, trivial, data⟩
    | creates todo kept =>
      obtain ⟨rooted, holds, part, before⟩ := keeping
      cases todo with
      | nil => exact ⟨⟨rooted, holds, before⟩, rfl, data⟩
      | cons path rest =>
        have clear : tree.Clear path := smooth
        have member := part List.mem_cons_self
        obtain ⟨short, below, apart⟩ := stateDirectories_short path member
        simp only [stateStep, StateProcess.advance, StateTree.mkdir_clear clear short]
        refine ⟨⟨?_, holds, fun _ later => part (List.mem_cons_of_mem _ later), before.step clear⟩,
          StateTree.made_other apart.symm, growing.made (List.mem_cons_of_mem _ member) data⟩
        rwa [StateTree.made_other below.symm]
    | marks kept =>
      obtain ⟨rooted, holds, before⟩ := keeping
      have stands : tree.exists? [stateMarker] = true :=
        (StateTree.exists?_iff limit).mpr (by rw [marked]; nofun)
      have settled : tree.exists? [stateMarker] = true ∧ kept ≠ none := ⟨stands, by rw [holds]; nofun⟩
      simp only [stateStep, StateProcess.advance, if_pos settled]
      exact ⟨⟨rooted, before⟩, trivial, data⟩
    | done => exact ⟨keeping, rfl, data⟩
    | opens | enters | moves | unlinks | writes | replaces | raised => exact keeping.elim

/-- The marker names no instance, or there is none; what the process holds is then all that is known
of the identity. -/
def Unmarked (limit : Nat) (id kept : Option (List Nat)) (tree : StateTree) : Prop :=
  kept = id ∧ tree.marker limit = none ∨ kept = none ∧ id = none ∧
    tree.marker limit = some (.format 1 none)

/-- The identity that is written. -/
structure Chosen (kept : Option (List Nat)) (points : List Nat) : Prop where
  valid : Points points
  nonempty : points ≠ []
  held : ∀ own, kept = some own → points = own

/-- A file of the process that was not there before. -/
def Temporary (initial tree : StateTree) (temporary : String) (bytes : Option (List UInt8)) : Prop :=
  ∃ token, temporary = newMarkerName token ∧ initial [temporary] = none ∧
    tree [temporary] = some (.file bytes)

/-- A marker is to be written. -/
def Marking (limit : Nat) (initial : StateTree) (id : Option (List Nat)) :
    StateProcess → StateTree → Prop
  | .begins, tree => Unmarked limit id none tree
  | .reads, tree => tree [] = some .dir ∧ Unmarked limit id none tree
  | .creates todo kept, tree =>
    tree [] = some .dir ∧ todo ⊆ stateDirectories ∧ Made todo tree ∧ Unmarked limit id kept tree
  | .marks kept, tree => tree [] = some .dir ∧ Made [] tree ∧ Unmarked limit id kept tree
  | .writes kept points temporary, tree => tree [] = some .dir ∧ Made [] tree ∧
      Unmarked limit id kept tree ∧
      Chosen kept points ∧ ∃ bytes, Temporary initial tree temporary bytes
  | .replaces kept points temporary, tree => tree [] = some .dir ∧ Made [] tree ∧
      Unmarked limit id kept tree ∧
      Chosen kept points ∧ Temporary initial tree temporary (some (markerBytes points))
  | _, _ => False

/-- A property of the tree that neither new directories nor a new marker touch. -/
structure Lasting (initial : StateTree) (D : StateTree → Prop) : Prop where
  growing : Growing D
  marked : ∀ tree node, D tree → D (tree.put [stateMarker] node)
  temporary : ∀ tree token node, initial [newMarkerName token] = none → D tree →
    D (tree.put [newMarkerName token] node)
  free : ∀ tree token, D tree → tree [newMarkerName token] = none → initial [newMarkerName token] = none

theorem newMarkerName_marker (token : String) : newMarkerName token ≠ stateMarker :=
  newMarkerName_ne (by decide) token

theorem newMarkerName_listed (token : String) : [newMarkerName token] ∉ stateDirectories := by
  intro member
  have name : newMarkerName token ∈ ["runtime", "logs", "exports", "cache", "recovery"] := by
    simpa [stateDirectories] using member
  revert name
  simp [newMarkerName_ne (show "runtime".toList.take 2 ≠ ['.', '.'] by decide) token,
    newMarkerName_ne (show "logs".toList.take 2 ≠ ['.', '.'] by decide) token,
    newMarkerName_ne (show "exports".toList.take 2 ≠ ['.', '.'] by decide) token,
    newMarkerName_ne (show "cache".toList.take 2 ≠ ['.', '.'] by decide) token,
    newMarkerName_ne (show "recovery".toList.take 2 ≠ ['.', '.'] by decide) token]

theorem Made.put (before : Made todo tree) (unlisted : path ∉ stateDirectories)
    (node : Option TreeNode) :
    Made todo (tree.put path node) := by
  intro other member missing
  have apart : other ≠ path := fun same => unlisted (same ▸ member)
  rw [StateTree.put_other apart]
  exact before other member missing

theorem Unmarked.congr {tree' : StateTree} (before : Unmarked limit id kept tree)
    (same : tree' [stateMarker] = tree [stateMarker]) : Unmarked limit id kept tree' := by
  rw [Unmarked, StateTree.marker_congr same]
  exact before

theorem Unmarked.replaceable (before : Unmarked limit id kept tree) :
    tree [stateMarker] ≠ some .dir := by
  intro isDir
  rcases before with ⟨_, nothing⟩ | ⟨_, _, marked⟩
  · rw [StateTree.marker, isDir] at nothing
    cases nothing
  · rw [StateTree.marker, isDir] at marked
    cases marked

/-- Where the marker names no instance, one step further it still names none, or it names the known
one. -/
theorem marking_step (lasting : Lasting initial D)
    (known : ∀ own, id = some own → Points own ∧ own ≠ []) (data : D tree)
    (marking : Marking limit initial id p tree) (smooth : Smooth limit (p, tree) act) :
    D (stateStep limit (p, tree) act).2 ∧
      (Marking limit initial id (stateStep limit (p, tree) act).1 (stateStep limit (p, tree) act).2 ∨
        ∃ points, (id = none ∨ id = some points) ∧
          (stateStep limit (p, tree) act).2.marker limit = some (.format 1 (some points)) ∧
          Keeping points (stateStep limit (p, tree) act).1 (stateStep limit (p, tree) act).2) := by
  have apart (token : String) : [stateMarker] ≠ [newMarkerName token] := by
    simpa using (newMarkerName_marker token).symm
  cases act with
  | restart =>
    refine ⟨data, .inl ?_⟩
    have forgotten {kept : Option (List Nat)} (unmarked : Unmarked limit id kept tree)
        (safe : kept = none ∨ tree.exists? [stateMarker] = true) : Unmarked limit id none tree := by
      rcases unmarked with ⟨same, nothing⟩ | marked
      · rcases safe with unheld | stands
        · exact .inl ⟨unheld ▸ same, nothing⟩
        · exact absurd nothing ((StateTree.exists?_iff limit).mp stands)
      · exact .inr ⟨rfl, marked.2⟩
    cases p with
    | begins => exact marking
    | reads => exact marking.2
    | creates todo kept => exact forgotten marking.2.2.2 smooth
    | marks kept => exact forgotten marking.2.2 smooth
    | writes kept points temporary => exact forgotten marking.2.2.1 smooth
    | replaces kept points temporary => exact forgotten marking.2.2.1 smooth
    | opens | enters | moves | unlinks | done | raised => exact marking.elim
  | advance stamp token fresh =>
    cases p with
    | begins =>
      have clear : tree.Clear [] := smooth
      simp only [stateStep, StateProcess.advance, StateTree.mkdir_clear clear (by decide)]
      exact ⟨lasting.growing.made List.mem_cons_self data,
        .inl ⟨StateTree.made_self clear, marking.congr (StateTree.made_other (by decide))⟩⟩
    | reads =>
      have judged : readMarker limit tree = .creates stateDirectories none := by
        rcases marking.2 with ⟨_, nothing⟩ | ⟨_, _, marked⟩
        · rw [readMarker, nothing]
        · rw [readMarker, marked]
          rfl
      simp only [stateStep, StateProcess.advance, judged]
      exact ⟨data, .inl ⟨marking.1, fun _ member => member, fun path member missing =>
        absurd member missing, marking.2⟩⟩
    | creates todo kept =>
      obtain ⟨rooted, part, before, unmarked⟩ := marking
      cases todo with
      | nil => exact ⟨data, .inl ⟨rooted, before, unmarked⟩⟩
      | cons path rest =>
        have clear : tree.Clear path := smooth
        have member := part List.mem_cons_self
        obtain ⟨short, below, aside⟩ := stateDirectories_short path member
        simp only [stateStep, StateProcess.advance, StateTree.mkdir_clear clear short]
        refine ⟨lasting.growing.made (List.mem_cons_of_mem _ member) data, .inl ⟨?_,
          fun _ later => part (List.mem_cons_of_mem _ later), before.step clear,
          unmarked.congr (StateTree.made_other aside.symm)⟩⟩
        rwa [StateTree.made_other below.symm]
    | marks kept =>
      obtain ⟨rooted, before, unmarked⟩ := marking
      have unsettled : ¬ (tree.exists? [stateMarker] = true ∧ kept ≠ none) := by
        rintro ⟨stands, held⟩
        rcases unmarked with ⟨_, nothing⟩ | ⟨unheld, _⟩
        · exact absurd nothing ((StateTree.exists?_iff limit).mp stands)
        · exact held unheld
      have free : tree [newMarkerName token] = none := smooth
      simp only [stateStep, StateProcess.advance, if_neg unsettled, free]
      have new := lasting.free tree token data free
      refine ⟨lasting.temporary tree token _ new data,
        .inl ⟨?_, before.put (newMarkerName_listed token) _,
        unmarked.congr (StateTree.put_other (apart token)), ?_,
          ⟨_, token, rfl, new, StateTree.put_self⟩⟩⟩
      · rwa [StateTree.put_other (by simp)]
      · cases kept with
        | none => exact ⟨fresh.valid, fresh.nonempty, nofun⟩
        | some own =>
          have same : id = some own := by
            rcases unmarked with ⟨same, _⟩ | ⟨unheld, _⟩
            · exact same.symm
            · cases unheld
          exact ⟨(known own same).1, (known own same).2, fun other isOther => Option.some.inj isOther⟩
    | writes kept points temporary =>
      obtain ⟨rooted, before, unmarked, chosen, bytes, token, rfl, new, _⟩ := marking
      simp only [stateStep, StateProcess.advance]
      refine ⟨lasting.temporary tree token _ new data,
        .inl ⟨?_, before.put (newMarkerName_listed token) _,
        unmarked.congr (StateTree.put_other (apart token)), chosen, token, rfl, new,
          StateTree.put_self⟩⟩
      rwa [StateTree.put_other (by simp)]
    | replaces kept points temporary =>
      obtain ⟨rooted, before, unmarked, chosen, token, rfl, new, written⟩ := marking
      have replaced : tree.replace [newMarkerName token] [stateMarker] =
          some ((tree.put [stateMarker] (some (.file (some (markerBytes points))))).put
            [newMarkerName token] none) := by
        rw [StateTree.replace, written]
        split
        · rename_i nothing
          cases nothing
        · exact absurd (by assumption) unmarked.replaceable
        · rename_i same _
          cases same
          rfl
      simp only [stateStep, StateProcess.advance, replaced]
      refine ⟨lasting.temporary _ token _ new (lasting.marked tree _ data),
        .inr ⟨points, ?_, ?_, ?_, ?_⟩⟩
      · rcases unmarked with ⟨same, _⟩ | ⟨_, unnamed, _⟩
        · cases id with
          | none => exact .inl rfl
          | some own => exact .inr (congrArg some (chosen.held own same).symm)
        · exact .inl unnamed
      · rw [StateTree.marker, StateTree.put_other (apart token), StateTree.put_self]
        exact congrArg some (marker_read limit chosen.valid chosen.nonempty)
      · rwa [StateTree.put_other (by simp), StateTree.put_other (by simp)]
      · exact (before.put (by decide) _).put (newMarkerName_listed token) _
    | opens | enters | moves | unlinks | done | raised => exact marking.elim

end Steps

/-! ## The quarantine -/

/-- The entry stands below a directory of `recovery` that was not there before. -/
def MovedOut (initial tree : StateTree) (name : String) : Prop :=
  ∃ directory, initial ["recovery", directory] = none ∧
    ∀ rest, tree ("recovery" :: directory :: name :: rest) = initial (name :: rest)

structure Cleared (initial tree : StateTree) (name : String) : Prop where
  empty : ∀ rest, tree (name :: rest) = none
  moved : initial [name] ≠ none → MovedOut initial tree name

/-- Every entry stands where it stood, or it was moved. -/
def Scattered (initial tree : StateTree) : Prop :=
  ∀ name ∈ dynamicNames, (∀ rest, tree (name :: rest) = initial (name :: rest)) ∨
    Cleared initial tree name

/-- A path outside of the entries that are moved. -/
def Outside (path : List String) : Prop := ∀ name ∈ dynamicNames, ∀ rest, path ≠ name :: rest

structure Standing (initial tree : StateTree) : Prop where
  marker : tree [stateMarker] = initial [stateMarker]
  rooted : tree [] = some .dir
  kept : ∀ path node, initial path = some node → Outside path → tree path = some node

/-- The marker still stands, and the entries are on their way. -/
def Quarantining (initial : StateTree) (id : Option (List Nat)) : StateProcess → StateTree → Prop
  | .begins, tree | .reads, tree => Scattered initial tree
  | .opens _ kept, tree | .enters _ kept, tree => kept = id ∧ Scattered initial tree
  | .moves directory todo kept, tree => kept = id ∧ Scattered initial tree ∧
      ∃ name, directory = ["recovery", name] ∧ initial ["recovery", name] = none ∧
        todo ⊆ dynamicNames ∧ todo.Nodup ∧
        (∀ other ∈ todo, ∀ rest, tree ("recovery" :: name :: other :: rest) = none) ∧
        ∀ other ∈ dynamicNames, other ∉ todo → Cleared initial tree other
  | .unlinks kept, tree => kept = id ∧ ∀ name ∈ dynamicNames, Cleared initial tree name
  | _, _ => False

/-- What a quarantine leaves: the entries below `recovery`, and nothing but new directories in their
places. -/
structure Recovered (initial tree : StateTree) : Prop where
  kept : ∀ path node, initial path = some node → path ≠ [stateMarker] → Outside path →
    tree path = some node
  moved : ∀ name ∈ dynamicNames, initial [name] ≠ none → MovedOut initial tree name
  fresh : ∀ name ∈ dynamicNames, ∀ rest node, tree (name :: rest) = some node → node = .dir

section Quarantine
variable {limit : Nat} {tree initial next : StateTree} {id : Option (List Nat)} {p : StateProcess}
  {act : StateAct} {name : String}
  {path : List String}

theorem dynamicNames_apart : ∀ name ∈ dynamicNames, name ≠ "recovery" ∧ name ≠ stateMarker := by decide

theorem outside_recovery (rest : List String) : Outside ("recovery" :: rest) :=
  fun name member _ same => (dynamicNames_apart name member).1 (List.cons.inj same).1.symm

theorem outside_newMarker (token : String) : Outside [newMarkerName token] := by
  intro name member rest same
  have plain : ∀ name ∈ dynamicNames, name.toList.take 2 ≠ ['.', '.'] := by decide
  exact newMarkerName_ne (plain name member) token (List.cons.inj same).1

/-- A change at one short path outside of the entries touches neither them nor what was moved. -/
theorem Cleared.congr (before : Cleared initial tree name)
    (own : ∀ rest, next (name :: rest) = tree (name :: rest))
    (deep : ∀ a b c rest, tree (a :: b :: c :: rest) = next (a :: b :: c :: rest)) :
    Cleared initial next name where
  empty rest := (own rest).trans (before.empty rest)
  moved present := by
    obtain ⟨directory, new, stands⟩ := before.moved present
    exact ⟨directory, new, fun rest => (deep ..).symm.trans (stands rest)⟩

theorem Scattered.put {node : Option TreeNode} (before : Scattered initial tree)
    (outside : Outside path)
    (short : path.length ≤ 2) : Scattered initial (tree.put path node) := by
  intro name member
  have own (rest : List String) : tree.put path node (name :: rest) = tree (name :: rest) :=
    StateTree.put_other (outside name member rest).symm
  have deep (a b c : String) (rest : List String) : tree (a :: b :: c :: rest) = tree.put path node
    (a :: b :: c :: rest) := by
    refine (StateTree.put_other ?_).symm
    rintro rfl
    simp only [List.length_cons] at short
    omega
  rcases before name member with intact | cleared
  · exact .inl (fun rest => (own rest).trans (intact rest))
  · exact .inr (cleared.congr own deep)

theorem Standing.put_dir (before : Standing initial tree) (free : tree path = none)
    (apart : path ≠ [stateMarker]) :
    Standing initial (tree.put path (some .dir)) where
  marker := (StateTree.put_other apart.symm).trans before.marker
  rooted := by
    rw [StateTree.put_other (by rintro rfl; rw [before.rooted] at free; cases free)]
    exact before.rooted
  kept other node stands outside := by
    have there := before.kept other node stands outside
    rw [StateTree.put_other (by rintro rfl; rw [there] at free; cases free)]
    exact there

theorem Standing.made (before : Standing initial tree) (apart : path ≠ [stateMarker]) :
    Standing initial (tree.made path) := by
  unfold StateTree.made
  split
  · rename_i free
    exact before.put_dir free apart
  · exact before

theorem Scattered.made (before : Scattered initial tree) (outside : Outside path)
    (short : path.length ≤ 2) :
    Scattered initial (tree.made path) := by
  unfold StateTree.made
  split
  · exact before.put outside short
  · exact before

namespace StateTree
variable {directory other : String} {rest : List String}

theorem move_source : tree.move name ["recovery", directory] (name :: rest) = none := if_pos rfl

theorem move_target (apart : name ≠ "recovery") :
    tree.move name ["recovery", directory] ("recovery" :: directory :: name :: rest) = tree
    (name :: rest) := by
  rw [move, if_neg apart.symm]
  exact if_pos ⟨rest, rfl⟩

theorem move_other (apart : other ≠ name)
    (aside : ∀ rest', other :: rest ≠ "recovery" :: directory :: name :: rest') :
    tree.move name ["recovery", directory] (other :: rest) = tree (other :: rest) := by
  rw [move, if_neg apart]
  exact if_neg (fun ⟨rest', same⟩ => aside rest' same.symm)

end StateTree

/-- A move that finds its place free clears one entry and leaves the others. -/
theorem Cleared.move {directory : String} (isDynamic : name ∈ dynamicNames)
    (new : initial ["recovery", directory] = none)
    (intact : ∀ rest, tree (name :: rest) = initial (name :: rest)) :
    Cleared initial (tree.move name ["recovery", directory]) name where
  empty _ := StateTree.move_source
  moved _ := ⟨directory, new, fun rest =>
    (StateTree.move_target (dynamicNames_apart name isDynamic).1).trans (intact rest)⟩

theorem Cleared.move_other {directory other : String} (before : Cleared initial tree other)
    (isDynamic : other ∈ dynamicNames)
    (apart : other ≠ name) (isSource : name ∈ dynamicNames) :
    Cleared initial (tree.move name ["recovery", directory]) other := by
  have own (rest : List String) : tree.move name ["recovery", directory] (other :: rest) = tree
    (other :: rest) :=
    StateTree.move_other apart
      (fun rest' same => (dynamicNames_apart other isDynamic).1 (List.cons.inj same).1)
  refine ⟨fun rest => (own rest).trans (before.empty rest), fun present => ?_⟩
  obtain ⟨elsewhere, new, stands⟩ := before.moved present
  refine ⟨elsewhere, new, fun rest => ?_⟩
  rw [StateTree.move_other (dynamicNames_apart name isSource).1.symm]
  · exact stands rest
  · intro rest' same
    exact apart (List.cons.inj (List.cons.inj (List.cons.inj same).2).2).1

theorem Standing.move {directory : String} (before : Standing initial tree)
    (isDynamic : name ∈ dynamicNames)
    (free : ∀ rest, tree ("recovery" :: directory :: name :: rest) = none) :
    Standing initial (tree.move name ["recovery", directory]) where
  marker := by
    rw [StateTree.move_other (dynamicNames_apart name isDynamic).2.symm (fun rest same => ?_)]
    · exact before.marker
    · exact absurd (List.cons.inj same).1 (by decide)
  rooted := before.rooted
  kept path node stands outside := by
    have there := before.kept path node stands outside
    cases path with
    | nil => exact there
    | cons first rest =>
      rw [StateTree.move_other]
      · exact there
      · rintro rfl
        exact outside first isDynamic rest rfl
      · intro rest' same
        rw [same, free rest'] at there
        cases there

/-- One step while the entries are moved: the quarantine goes on, or the marker is gone and
everything was moved. -/
theorem quarantining_step {reason : String} (judged : readMarker limit initial = .opens reason id)
    (closed : ∀ name rest, initial [name] = none → initial (name :: rest) = none)
    (standing : Standing initial tree)
    (quarantining : Quarantining initial id p tree) (smooth : Smooth limit (p, tree) act) :
    (Standing initial (stateStep limit (p, tree) act).2 ∧
      Quarantining initial id (stateStep limit (p, tree) act).1 (stateStep limit (p, tree) act).2) ∨
    (Recovered initial (stateStep limit (p, tree) act).2 ∧
      Marking limit initial id (stateStep limit (p, tree) act).1
        (stateStep limit (p, tree) act).2) := by
  cases act with
  | restart =>
    refine .inl ⟨standing, ?_⟩
    cases p with
    | begins => exact quarantining
    | reads => exact quarantining
    | opens => exact quarantining.2
    | enters => exact quarantining.2
    | moves => exact quarantining.2.1
    | unlinks => exact fun name member => .inr (quarantining.2 name member)
    | creates | marks | writes | replaces | done | raised => exact quarantining.elim
  | advance stamp token fresh =>
    cases p with
    | begins =>
      have clear : tree.Clear [] := smooth
      simp only [stateStep, StateProcess.advance, StateTree.mkdir_clear clear (by decide)]
      exact .inl ⟨standing.made nofun, quarantining.made (fun _ _ _ => nofun) (by decide)⟩
    | reads =>
      have again : readMarker limit tree = .opens reason id := by
        rw [← judged, readMarker, readMarker, StateTree.marker_congr standing.marker]
      simp only [stateStep, StateProcess.advance, again]
      exact .inl ⟨standing, rfl, quarantining⟩
    | opens reason kept =>
      have clear : tree.Clear ["recovery"] := smooth
      simp only [stateStep, StateProcess.advance, StateTree.mkdir_clear clear (by decide)]
      exact .inl ⟨standing.made (by decide), quarantining.1,
        quarantining.2.made (outside_recovery []) (by decide)⟩
    | enters reason kept =>
      obtain ⟨short, free⟩ : (stamp ++ "-" ++ reason).utf8ByteSize ≤ StateTree.nameMax ∧
        ∀ rest, tree ("recovery" :: (stamp ++ "-" ++ reason) :: rest) = none := smooth
      obtain ⟨same, scattered⟩ := quarantining
      have entered : tree.mkdir false ["recovery", stamp ++ "-" ++ reason] =
          some (tree.put ["recovery", stamp ++ "-" ++ reason] (some .dir)) := by
        rw [StateTree.mkdir, free []]
        exact if_pos short
      simp only [stateStep, StateProcess.advance, entered]
      generalize stamp ++ "-" ++ reason = directory at free
      have new : initial ["recovery", directory] = none := by
        cases before : initial ["recovery", directory] with
        | none => rfl
        | some node =>
          have there := standing.kept _ node before (outside_recovery _)
          rw [free []] at there
          cases there
      refine .inl ⟨standing.put_dir (free []) (by simp), same,
        scattered.put (outside_recovery _) (by simp),
        directory, rfl, new, fun _ member =>
          member, by decide, fun other _ rest => ?_, fun other member missing => absurd member missing⟩
      rw [StateTree.put_other (by simp)]
      exact free (other :: rest)
    | moves directory todo kept =>
      obtain ⟨same, scattered, directory, rfl, new, part, unique, free, done⟩ := quarantining
      cases todo with
      | nil => exact .inl ⟨standing, same, fun name member => done name member List.not_mem_nil⟩
      | cons name todo =>
        have isDynamic := part List.mem_cons_self
        obtain ⟨once, unique⟩ := List.nodup_cons.mp unique
        simp only [stateStep, StateProcess.advance]
        split
        · rename_i nothing
          have cleared : Cleared initial tree name := by
            rcases scattered name isDynamic with intact | cleared
            · have absent : initial [name] = none := (intact []).symm.trans nothing
              exact ⟨fun rest => (intact rest).trans (closed name rest absent), fun present =>
                absurd absent present⟩
            · exact cleared
          refine .inl ⟨standing, same, scattered, directory, rfl, new, fun _ later =>
            part (List.mem_cons_of_mem _ later),
            unique, fun other later => free other (List.mem_cons_of_mem _ later),
              fun other member missing => ?_⟩
          by_cases this : other = name
          · exact this ▸ cleared
          · exact done other member (by simp [this, missing])
        · rename_i present
          have intact : ∀ rest, tree (name :: rest) = initial (name :: rest) := by
            refine (scattered name isDynamic).resolve_right (fun cleared => ?_)
            exact present (cleared.empty [])
          have moved := Cleared.move isDynamic new intact
          refine .inl ⟨standing.move isDynamic (free name List.mem_cons_self), same,
            fun other member => ?_, directory, rfl, new,
            fun _ later => part (List.mem_cons_of_mem _ later), unique, fun other later rest =>
              ?_, fun other member missing => ?_⟩
          · by_cases this : other = name
            · exact .inr (this ▸ moved)
            · rcases scattered other member with stays | cleared
              · refine .inl (fun rest =>
                  (StateTree.move_other this (fun rest' equal => ?_)).trans (stays rest))
                exact (dynamicNames_apart other member).1 (List.cons.inj equal).1
              · exact .inr (cleared.move_other member this isDynamic)
          · rw [StateTree.move_other (dynamicNames_apart name isDynamic).1.symm (fun rest' equal => ?_)]
            · exact free other (List.mem_cons_of_mem _ later) rest
            · exact once ((List.cons.inj (List.cons.inj (List.cons.inj equal).2).2).1 ▸ later)
          · by_cases this : other = name
            · exact this ▸ moved
            · exact (done other member (by simp [this, missing])).move_other member this isDynamic
    | unlinks kept =>
      obtain ⟨same, cleared⟩ := quarantining
      have isFile : tree [stateMarker] ≠ some .dir := smooth
      have unlinked : tree.unlink [stateMarker] = some (tree.put [stateMarker] none) := by
        rw [StateTree.unlink]
        split
        · rename_i isDir
          exact absurd isDir isFile
        · rfl
      simp only [stateStep, StateProcess.advance, unlinked]
      have apart (name : String) (member : name ∈ dynamicNames) (rest : List String) : name ::
        rest ≠ [stateMarker] :=
        fun equal => (dynamicNames_apart name member).2 (List.cons.inj equal).1
      refine .inr ⟨⟨fun path node there aside outside => ?_, fun name member present =>
        ?_, fun name member rest node there => ?_⟩,
        ?_, fun _ member => member, fun path member missing => absurd member missing, .inl ⟨same, ?_⟩⟩
      · rw [StateTree.put_other aside]
        exact standing.kept path node there outside
      · obtain ⟨directory, new, moved⟩ := (cleared name member).moved present
        refine ⟨directory, new, fun rest => ?_⟩
        rw [StateTree.put_other (by simp)]
        exact moved rest
      · rw [StateTree.put_other (apart name member rest), (cleared name member).empty rest] at there
        cases there
      · rw [StateTree.put_other (by simp)]
        exact standing.rooted
      · rw [StateTree.marker, StateTree.put_self]
    | creates | marks | writes | replaces | done | raised => exact quarantining.elim

end Quarantine

/-! ## Runs -/

/-- Everything but the marker stands where it stood. -/
def Direct (initial tree : StateTree) : Prop :=
  ∀ path node, initial path = some node → path ≠ [stateMarker] → tree path = some node

/-- Every entry stands in a directory. -/
def StateTree.Closed (tree : StateTree) : Prop :=
  ∀ path name, tree (path ++ [name]) ≠ none → tree path = some .dir

section Lasting
variable {initial tree : StateTree}

theorem Direct.put {path : List String} {node : Option TreeNode} (before : Direct initial tree)
    (free : initial path = none ∨ path = [stateMarker]) : Direct initial (tree.put path node) := by
  intro other found there apart
  rw [StateTree.put_other]
  · exact before other found there apart
  · rintro rfl
    rcases free with free | isMarker
    · rw [there] at free
      cases free
    · exact apart isMarker

theorem direct_free {path : List String} (before : Direct initial tree) (free : tree path = none) :
    initial path = none ∨ path = [stateMarker] := by
  by_cases isMarker : path = [stateMarker]
  · exact .inr isMarker
  · refine .inl (Option.eq_none_iff_forall_ne_some.mpr (fun node there => ?_))
    have stands := before path node there isMarker
    rw [free] at stands
    cases stands

theorem direct_lasting (initial : StateTree) : Lasting initial (Direct initial) where
  growing _ _ _ free data := data.put (direct_free data free)
  marked _ _ data := data.put (.inr rfl)
  temporary _ _ _ new data := data.put (.inl new)
  free _ token data free :=
    (direct_free data free).resolve_right (by simpa using newMarkerName_marker token)

theorem stateDirectories_length :
    ∀ path ∈ [] :: stateDirectories, path.length ≤ 2 ∧ path ≠ [stateMarker] := by decide

theorem Recovered.put {path : List String} {node : Option TreeNode} (before : Recovered initial tree)
    (free : Outside path → initial path = none ∨ path = [stateMarker]) (short : path.length ≤ 2)
    (fits : Outside path ∨ node = some .dir) : Recovered initial (tree.put path node) where
  kept other found there apart outside := by
    rw [StateTree.put_other]
    · exact before.kept other found there apart outside
    · rintro rfl
      rcases free outside with free | isMarker
      · rw [there] at free
        cases free
      · exact apart isMarker
  moved name member present := by
    obtain ⟨directory, new, stands⟩ := before.moved name member present
    refine ⟨directory, new, fun rest => ?_⟩
    rw [StateTree.put_other]
    · exact stands rest
    · rintro rfl
      simp only [List.length_cons] at short
      omega
  fresh name member rest found there := by
    by_cases same : name :: rest = path
    · subst same
      rw [StateTree.put_self] at there
      rcases fits with outside | isDir
      · exact absurd rfl (outside name member rest)
      · exact (Option.some.inj (isDir.symm.trans there)).symm
    · rw [StateTree.put_other same] at there
      exact before.fresh name member rest found there

theorem recovered_free {path : List String} (before : Recovered initial tree) (free : tree path = none)
    (apart : path ≠ [stateMarker]) (outside : Outside path) : initial path = none := by
  refine Option.eq_none_iff_forall_ne_some.mpr (fun node there => ?_)
  have stands := before.kept path node there apart outside
  rw [free] at stands
  cases stands

theorem recovered_lasting (initial : StateTree) : Lasting initial (Recovered initial) where
  growing _ path member free data := by
    obtain ⟨short, apart⟩ := stateDirectories_length path member
    exact data.put (fun outside => .inl (recovered_free data free apart outside)) short (.inr rfl)
  marked _ _ data := by
    refine data.put (fun _ => .inr rfl) (by decide) (.inl (fun name member rest same => ?_))
    exact (dynamicNames_apart name member).2 (List.cons.inj same).1.symm
  temporary _ token _ new data :=
    data.put (fun _ => .inl new) (by simp) (.inl (outside_newMarker token))
  free _ token data free :=
    recovered_free data free (by simpa using newMarkerName_marker token) (outside_newMarker token)

end Lasting

/-- The marker is to be written, or it names an instance, the known one if one is known. -/
def Settling (limit : Nat) (initial : StateTree) (id : Option (List Nat)) (p : StateProcess)
    (tree : StateTree) : Prop :=
  Marking limit initial id p tree ∨ ∃ points, (id = none ∨ id = some points) ∧
    tree.marker limit = some (.format 1 (some points)) ∧ Keeping points p tree

/-- What a run can have reached, by the marker it began with. -/
def Reached (limit : Nat) (initial : StateTree) (p : StateProcess) (tree : StateTree) :
    StateProcess → Prop
  | .raised e => tree = initial ∧
      (p = .begins ∨ p = .reads ∨ ∃ version, e = .compatibility version ∧ p = .raised e)
  | .opens _ id => Standing initial tree ∧ Quarantining initial id p tree ∨
      Recovered initial tree ∧ Settling limit initial id p tree
  | .creates _ none => Direct initial tree ∧ Settling limit initial none p tree
  | .creates _ (some points) => (Direct initial tree ∧ tree [stateMarker] = initial [stateMarker]) ∧
      Keeping points p tree
  | _ => False

section Run
variable {limit : Nat} {initial : StateTree}

theorem StateTree.Closed.rooted (closed : initial.Closed) (stands : initial.marker limit ≠ none) :
    initial [] = some .dir := by
  refine closed [] stateMarker (fun nothing => stands ?_)
  have absent : initial [stateMarker] = none := nothing
  rw [StateTree.marker, absent]

/-- An entry that is missing has nothing below it. -/
theorem StateTree.Closed.below (closed : initial.Closed) (name : String) (rest : List String)
    (missing : initial [name] = none) :
    initial (name :: rest) = none := by
  induction rest using List.reverseRecOn with
  | nil => exact missing
  | append_singleton rest last ih =>
    refine Option.eq_none_iff_forall_ne_some.mpr (fun node there => ?_)
    have isDir : initial (name :: rest) = some .dir := closed (name :: rest) last (by
      show initial (name :: (rest ++ [last])) ≠ none
      rw [there]
      nofun)
    rw [ih] at isDir
    cases isDir

/-- The class of the marker decides what is done. -/
inductive MarkerClass (limit : Nat) (tree : StateTree) : StateProcess → Prop where
  | missing (nothing : tree.marker limit = none) : MarkerClass limit tree
      (.creates stateDirectories none)
  | invalid (marked : tree.marker limit = some .invalid) : MarkerClass limit tree
      (.opens "invalid-marker" none)
  | raises (kind : String)
      (marked : tree.marker limit = some (.raises kind)) : MarkerClass limit tree
      (.raised (.uncaught kind))
  | newer (version : Int) (id : Option (List Nat))
      (marked : tree.marker limit = some (.format version id))
      (above : 1 < version) : MarkerClass limit tree (.raised (.compatibility version))
  | older (version : Int) (id : Option (List Nat))
      (marked : tree.marker limit = some (.format version id))
      (below : version < 1) : MarkerClass limit tree (.opens (quarantineReason version) id)
  | current (id : Option (List Nat)) (marked : tree.marker limit = some (.format 1 id)) :
      MarkerClass limit tree (.creates stateDirectories id)

theorem readMarker_class (limit : Nat) (tree : StateTree) :
    MarkerClass limit tree (readMarker limit tree) := by
  rw [readMarker]
  cases marked : tree.marker limit with
  | none => exact .missing marked
  | some marker =>
    cases marker with
    | invalid => exact .invalid marked
    | raises kind => exact .raises kind marked
    | format version id =>
      show MarkerClass limit tree (if 1 < version then _ else if version < 1 then _ else _)
      rcases lt_trichotomy version 1 with below | rfl | above
      · rw [if_neg (not_lt.mpr below.le), if_pos below]
        exact .older version id marked below
      · exact .current id marked
      · rw [if_pos above]
        exact .newer version id marked above

theorem reached_begin (closed : initial.Closed) :
    Reached limit initial .begins initial (readMarker limit initial) := by
  have standing (stands : initial.marker limit ≠ none) : Standing initial initial :=
    ⟨rfl, closed.rooted stands, fun _ _ there _ => there⟩
  have judged := readMarker_class limit initial
  generalize readMarker limit initial = result at judged ⊢
  cases judged with
  | missing nothing => exact ⟨fun _ _ there _ => there, .inl (.inl ⟨rfl, nothing⟩)⟩
  | invalid marked => exact .inl ⟨standing (by rw [marked]; nofun), fun _ _ => .inl (fun _ => rfl)⟩
  | raises kind marked => exact ⟨rfl, .inl rfl⟩
  | newer version id marked above => exact ⟨rfl, .inl rfl⟩
  | older version id marked below =>
    exact .inl ⟨standing (by rw [marked]; nofun), fun _ _ => .inl (fun _ => rfl)⟩
  | current id marked =>
    cases id with
    | none => exact ⟨fun _ _ there _ => there, .inl (.inr ⟨rfl, rfl, marked⟩)⟩
    | some points => exact ⟨⟨fun _ _ there _ => there, rfl⟩, trivial⟩

theorem fixed_growing (initial : StateTree) :
    Growing (fun tree => Direct initial tree ∧ tree [stateMarker] = initial [stateMarker]) := by
  rintro tree path member free ⟨data, same⟩
  refine ⟨(direct_lasting initial).growing tree path member free data, ?_⟩
  rw [StateTree.put_other (stateDirectories_length path member).2.symm]
  exact same

/-- Steps keep what is known of the identity and what holds of the rest of the tree. -/
theorem settling_step {tree : StateTree} {D : StateTree → Prop} {id : Option (List Nat)}
    {p : StateProcess} {act : StateAct}
    (lasting : Lasting initial D) (known : ∀ own, id = some own → Points own ∧ own ≠ []) (data : D tree)
    (settling : Settling limit initial id p tree) (smooth : Smooth limit (p, tree) act) :
    D (stateStep limit (p, tree) act).2 ∧
      Settling limit initial id (stateStep limit (p, tree) act).1
      (stateStep limit (p, tree) act).2 := by
  rcases settling with marking | ⟨points, named, marked, keeping⟩
  · exact marking_step lasting known data marking smooth
  · obtain ⟨keeps, same, data⟩ := keeping_step lasting.growing marked data keeping smooth
    exact ⟨data, .inr ⟨points, named, (StateTree.marker_congr same).trans marked, keeps⟩⟩

theorem marker_known {version : Int} {id : Option (List Nat)}
    (marked : initial.marker limit = some (.format version id))
    (own : List Nat) (same : id = some own) : Points own ∧ own ≠ [] := by
  subst same
  rw [StateTree.marker] at marked
  split at marked
  · exact marker_valid (Option.some.inj marked)
  · cases marked
  · cases marked
  · cases marked

/-- A marker that is refused leaves the tree alone. -/
theorem refused_step {tree : StateTree} {e : StateError} {p : StateProcess} {act : StateAct}
    (closed : initial.Closed)
    (stands : initial.marker limit ≠ none) (refused : readMarker limit initial = .raised e)
    (judgeable : (∀ kind, initial.marker limit ≠ some (.raises kind)) →
      ∃ version, e = .compatibility version)
    (reached : tree = initial ∧
      (p = .begins ∨ p = .reads ∨ ∃ version, e = .compatibility version ∧ p = .raised e))
    (smooth : Smooth limit (p, tree) act) :
    (stateStep limit (p, tree) act).2 = initial ∧ ((stateStep limit (p, tree) act).1 = .begins ∨
      (stateStep limit (p, tree) act).1 = .reads ∨
        ∃ version, e = .compatibility version ∧ (stateStep limit (p, tree) act).1 = .raised e) := by
  obtain ⟨rfl, places⟩ := reached
  cases act with
  | restart => exact ⟨rfl, .inl rfl⟩
  | advance stamp token fresh =>
    rcases places with rfl | rfl | ⟨version, isNewer, rfl⟩
    · have rooted := closed.rooted stands
      have same : tree.mkdir true [] = some tree := by
        rw [StateTree.mkdir, rooted]
        rfl
      simp only [stateStep, StateProcess.advance, same]
      exact ⟨trivial, .inr (.inl trivial)⟩
    · obtain ⟨version, isNewer⟩ := judgeable smooth
      simp only [stateStep, StateProcess.advance, refused]
      exact ⟨trivial, .inr (.inr ⟨version, isNewer, trivial⟩)⟩
    · exact ⟨rfl, .inr (.inr ⟨version, isNewer, rfl⟩)⟩

theorem reached_step {tree : StateTree} {p : StateProcess} {act : StateAct} (closed : initial.Closed)
    (reached : Reached limit initial p tree (readMarker limit initial))
    (smooth : Smooth limit (p, tree) act) :
    Reached limit initial (stateStep limit (p, tree) act).1 (stateStep limit (p, tree) act).2
    (readMarker limit initial) := by
  have quarantine {reason : String} {id : Option (List Nat)}
    (opens : readMarker limit initial = .opens reason id)
      (known : ∀ own, id = some own → Points own ∧ own ≠ [])
        (before : Reached limit initial p tree (.opens reason id)) :
      Reached limit initial (stateStep limit (p, tree) act).1 (stateStep limit (p, tree) act).2
        (.opens reason id) := by
    rcases before with ⟨standing, quarantining⟩ | ⟨recovered, settling⟩
    · exact (quarantining_step opens closed.below standing quarantining smooth).imp_right
        (fun ⟨recovered, marking⟩ => ⟨recovered, .inl marking⟩)
    · exact .inr (settling_step (recovered_lasting initial) known recovered settling smooth)
  have judged := readMarker_class limit initial
  generalize judgement : readMarker limit initial = result at judged reached ⊢
  cases judged with
  | missing nothing => exact settling_step (direct_lasting initial) nofun reached.1 reached.2 smooth
  | invalid marked => exact quarantine judgement nofun reached
  | raises kind marked =>
    exact refused_step closed (by rw [marked]; nofun) judgement
      (fun quiet => absurd marked (quiet kind)) reached smooth
  | newer version id marked above =>
    exact refused_step closed (by rw [marked]; nofun) judgement (fun _ => ⟨version, rfl⟩) reached smooth
  | older version id marked below => exact quarantine judgement (marker_known marked) reached
  | current id marked =>
    cases id with
    | none => exact settling_step (direct_lasting initial) nofun reached.1 reached.2 smooth
    | some points =>
      have same : tree.marker limit = some (.format 1 (some points)) :=
        (StateTree.marker_congr reached.1.2).trans marked
      obtain ⟨keeps, _, data⟩ := keeping_step (fixed_growing initial) same reached.1 reached.2 smooth
      exact ⟨data, keeps⟩

end Run

abbrev StateRun (limit : Nat) (guard : StateProcess × StateTree → StateAct → Prop) :
    StateProcess × StateTree → List StateAct → StateProcess × StateTree → Prop :=
  Run (Guarded (fun s act t => t = stateStep limit s act) guard)

/-- What initialization owes a state directory, in every state of a run. -/
structure Initialized (limit : Nat) (guard : StateProcess × StateTree → StateAct → Prop)
    (initial : StateTree)
    (s : StateProcess × StateTree) : Prop where
  newer : ∀ version id, initial.marker limit = some (.format version id) → 1 < version →
    s.2 = initial ∧ s.1 ≠ .done ∧ readMarker limit initial = .raised (.compatibility version)
  current : ∀ id, initial.marker limit = some (.format 1 id) → ∀ path node, initial path = some node →
    (path = [stateMarker] → id ≠ none) → s.2 path = some node
  missing : initial.marker limit = none → Direct initial s.2
  quarantined : initial.marker limit = some .invalid ∨
      (∃ version id, initial.marker limit = some (.format version id) ∧ version < 1) → s.1 = .done →
    ∀ name ∈ dynamicNames, initial [name] ≠ none → MovedOut initial s.2 name
  identity : ∀ version points, initial.marker limit = some (.format version (some points)) →
    s.1 = .done →
    s.2.marker limit = some (.format 1 (some points))
  quiet : ∀ e, s.1 = .raised e → ∃ version id, e = .compatibility version ∧
    initial.marker limit = some (.format version id) ∧ 1 < version
  preserved : ∀ path node, initial path = some node → path ≠ [stateMarker] → s.2 path = some node ∨
    ∃ name ∈ dynamicNames, ∃ rest directory, path = name :: rest ∧
      s.2 ("recovery" :: directory :: name :: rest) = some node
  again : s.1 = .done → ∀ acts t, StateRun limit guard (.begins, s.2) acts t → t.2 = s.2 ∧
    ∀ e, t.1 ≠ .raised e

section Results
variable {limit : Nat} {initial tree : StateTree} {p : StateProcess}

theorem Keeping.quiet {points : List Nat} (keeping : Keeping points p tree) (e : StateError) :
    p ≠ .raised e := by
  rintro rfl
  exact keeping

theorem Marking.unfinished {id : Option (List Nat)} (marking : Marking limit initial id p tree) :
    (∀ e, p ≠ .raised e) ∧ p ≠ .done := by
  constructor
  · rintro e rfl
    exact marking
  · rintro rfl
    exact marking

theorem Quarantining.unfinished {id : Option (List Nat)}
    (quarantining : Quarantining initial id p tree) :
    (∀ e, p ≠ .raised e) ∧ p ≠ .done := by
  constructor
  · rintro e rfl
    exact quarantining
  · rintro rfl
    exact quarantining

theorem Settling.quiet {id : Option (List Nat)} (settling : Settling limit initial id p tree)
    (e : StateError) :
    p ≠ .raised e := by
  rcases settling with marking | ⟨points, _, _, keeping⟩
  · exact marking.unfinished.1 e
  · exact keeping.quiet e

/-- A directory that is complete stays as it is. -/
theorem complete_run {points : List Nat} {acts : List StateAct} {t : StateProcess × StateTree}
    (marked : tree.marker limit = some (.format 1 (some points))) (rooted : tree [] = some .dir)
    (made : Made [] tree)
    (run : StateRun limit (Smooth limit) (.begins, tree) acts t) :
    t.2 = tree ∧ ∀ e, t.1 ≠ .raised e := by
  have growing : Growing (fun other => other = tree) := by
    rintro other path member free rfl
    rcases List.mem_cons.mp member with rfl | listed
    · rw [rooted] at free
      cases free
    · rw [made path listed List.not_mem_nil] at free
      cases free
  have kept : t.2 = tree ∧ Keeping points t.1 t.2 := by
    have begins : tree = tree ∧ Keeping points .begins tree := ⟨rfl, trivial⟩
    refine run.invariant (P := fun s => s.2 = tree ∧ Keeping points s.1 s.2) ?_ begins
    rintro ⟨p, other⟩ act _ ⟨same, keeping⟩ ⟨rfl, smooth⟩
    obtain ⟨keeps, _, still⟩ := keeping_step growing (same ▸ marked) same keeping smooth
    exact ⟨still, keeps⟩
  exact ⟨kept.1, kept.2.quiet⟩

theorem Keeping.again {points : List Nat} (keeping : Keeping points .done tree)
    (marked : tree.marker limit = some (.format 1 (some points))) (acts : List StateAct)
    (t : StateProcess × StateTree)
    (run : StateRun limit (Smooth limit) (.begins, tree) acts t) : t.2 = tree ∧ ∀ e, t.1 ≠ .raised e :=
  complete_run marked keeping.1 keeping.2 run

theorem Settling.again {id : Option (List Nat)} (settling : Settling limit initial id .done tree)
    (acts : List StateAct)
    (t : StateProcess × StateTree) (run : StateRun limit (Smooth limit) (.begins, tree) acts t) :
    t.2 = tree ∧ ∀ e, t.1 ≠ .raised e := by
  rcases settling with marking | ⟨points, _, marked, keeping⟩
  · exact absurd rfl marking.unfinished.2
  · exact keeping.again marked acts t run

theorem Quarantining.scattered {id : Option (List Nat)}
    (quarantining : Quarantining initial id p tree) :
    Scattered initial tree := by
  cases p with
  | begins => exact quarantining
  | reads => exact quarantining
  | opens => exact quarantining.2
  | enters => exact quarantining.2
  | moves => exact quarantining.2.1
  | unlinks => exact fun name member => .inr (quarantining.2 name member)
  | creates | marks | writes | replaces | done | raised => exact quarantining.elim

/-- A path lies outside of the entries that are moved, or inside of one. -/
theorem outside_or (path : List String) :
    Outside path ∨ ∃ name ∈ dynamicNames, ∃ rest, path = name :: rest := by
  by_cases outside : Outside path
  · exact .inl outside
  · simp only [Outside, not_forall, not_not] at outside
    obtain ⟨name, member, rest, same⟩ := outside
    exact .inr ⟨name, member, rest, same⟩

theorem MovedOut.preserved {name : String} {rest : List String} {node : TreeNode}
    (moved : MovedOut initial tree name)
    (member : name ∈ dynamicNames) (there : initial (name :: rest) = some node) :
    ∃ other ∈ dynamicNames, ∃ below directory, name :: rest = other :: below ∧
      tree ("recovery" :: directory :: other :: below) = some node := by
  obtain ⟨directory, _, stands⟩ := moved
  exact ⟨name, member, rest, directory, rfl, (stands rest).trans there⟩

theorem present_of_below (closed : initial.Closed) {name : String} {rest : List String}
    {node : TreeNode}
    (there : initial (name :: rest) = some node) : initial [name] ≠ none := by
  intro missing
  rw [closed.below name rest missing] at there
  cases there

theorem direct_initialized {id : Option (List Nat)}
    (marked : initial.marker limit = none ∧ id = none ∨ initial.marker limit = some (.format 1 id))
    (data : Direct initial tree) (fixed : id ≠ none → tree [stateMarker] = initial [stateMarker])
    (named : ∀ points, id = some points → p = .done →
      tree.marker limit = some (.format 1 (some points)))
    (quiet : ∀ e, p ≠ .raised e)
    (again : p = .done → ∀ acts t, StateRun limit (Smooth limit) (.begins, tree) acts t →
      t.2 = tree ∧ ∀ e, t.1 ≠ .raised e) :
    Initialized limit (Smooth limit) initial (p, tree) := by
  have only {version : Int} {own : Option (List Nat)}
    (this : initial.marker limit = some (.format version own)) :
      version = 1 ∧ own = id := by
    rcases marked with ⟨nothing, _⟩ | marked
    · rw [nothing] at this
      cases this
    · rw [marked] at this
      cases this
      exact ⟨rfl, rfl⟩
  constructor
  · intro version own this above
    have same := (only this).1
    omega
  · intro own this path node there safe
    by_cases isMarker : path = [stateMarker]
    · subst isMarker
      have held : id ≠ none := (only this).2 ▸ safe rfl
      exact (fixed held).trans there
    · exact data path node there isMarker
  · exact fun _ => data
  · rintro (invalid | ⟨version, own, this, below⟩)
    · rcases marked with ⟨nothing, _⟩ | marked
      · rw [nothing] at invalid
        cases invalid
      · rw [marked] at invalid
        cases invalid
    · have same := (only this).1
      omega
  · intro version points this done
    exact named points (only this).2.symm done
  · exact fun e raised => absurd raised (quiet e)
  · exact fun path node there apart => .inl (data path node there apart)
  · exact again

theorem quarantine_initialized (closed : initial.Closed) {id : Option (List Nat)}
    (marked : initial.marker limit = some .invalid ∧ id = none ∨
      ∃ version, initial.marker limit = some (.format version id) ∧ version < 1)
    (reached : Standing initial tree ∧ Quarantining initial id p tree ∨ Recovered initial tree ∧
      Settling limit initial id p tree) :
    Initialized limit (Smooth limit) initial (p, tree) := by
  have only {version : Int} {own : Option (List Nat)}
    (this : initial.marker limit = some (.format version own)) :
      version < 1 ∧ own = id := by
    rcases marked with ⟨invalid, _⟩ | ⟨version, marked, below⟩
    · rw [invalid] at this
      cases this
    · rw [marked] at this
      cases this
      exact ⟨below, rfl⟩
  constructor
  · intro version own this above
    have below := (only this).1
    omega
  · intro own this
    have below := (only this).1
    omega
  · intro nothing
    rcases marked with ⟨invalid, _⟩ | ⟨version, marked, _⟩
    · rw [nothing] at invalid
      cases invalid
    · rw [nothing] at marked
      cases marked
  · intro _ done name member present
    rcases reached with ⟨_, quarantining⟩ | ⟨recovered, _⟩
    · exact absurd done quarantining.unfinished.2
    · exact recovered.moved name member present
  · intro version points this done
    rcases reached with ⟨_, quarantining⟩ | ⟨_, marking | ⟨own, known, marks, _⟩⟩
    · exact absurd done quarantining.unfinished.2
    · exact absurd done marking.unfinished.2
    · rcases known with unknown | known
      · exact nomatch unknown.symm.trans (only this).2.symm
      · cases known.symm.trans (only this).2.symm
        exact marks
  · intro e raised
    rcases reached with ⟨_, quarantining⟩ | ⟨_, settling⟩
    · exact absurd raised (quarantining.unfinished.1 e)
    · exact absurd raised (settling.quiet e)
  · intro path node there apart
    rcases reached with ⟨standing, quarantining⟩ | ⟨recovered, _⟩
    · rcases outside_or path with outside | ⟨name, member, rest, rfl⟩
      · exact .inl (standing.kept path node there outside)
      · rcases quarantining.scattered name member with intact | cleared
        · exact .inl ((intact rest).trans there)
        · exact .inr ((cleared.moved (present_of_below closed there)).preserved member there)
    · rcases outside_or path with outside | ⟨name, member, rest, rfl⟩
      · exact .inl (recovered.kept path node there apart outside)
      · exact .inr ((recovered.moved name member (present_of_below closed there)).preserved
          member there)
  · rintro rfl acts t run
    rcases reached with ⟨_, quarantining⟩ | ⟨_, settling⟩
    · exact absurd rfl quarantining.unfinished.2
    · exact settling.again acts t run

theorem refused_initialized {e : StateError} (refused : readMarker limit initial = .raised e)
    (marked : (∃ kind, initial.marker limit = some (.raises kind)) ∧
      (∀ version, e ≠ .compatibility version) ∨
      ∃ version id, initial.marker limit = some (.format version id) ∧ 1 < version ∧
        e = .compatibility version)
    (reached : tree = initial ∧
      (p = .begins ∨ p = .reads ∨ ∃ version, e = .compatibility version ∧ p = .raised e)) :
    Initialized limit (Smooth limit) initial (p, tree) := by
  obtain ⟨rfl, places⟩ := reached
  have only {version : Int} {own : Option (List Nat)}
    (this : tree.marker limit = some (.format version own)) :
      1 < version ∧ e = .compatibility version := by
    rcases marked with ⟨⟨kind, raises⟩, _⟩ | ⟨version, id, marked, above, isNewer⟩
    · rw [raises] at this
      cases this
    · rw [marked] at this
      cases this
      exact ⟨above, isNewer⟩
  have running : p ≠ .done := by
    rcases places with rfl | rfl | ⟨_, _, rfl⟩
    · nofun
    · nofun
    · nofun
  constructor
  · intro version own this _
    exact ⟨rfl, running, (only this).2 ▸ refused⟩
  · intro own this
    have above := (only this).1
    omega
  · exact fun _ _ _ there _ => there
  · exact fun _ done => absurd done running
  · exact fun _ _ _ done => absurd done running
  · rintro e' raised
    rcases places with begins | reads | ⟨version, isNewer, same⟩
    · rw [begins] at raised
      cases raised
    · rw [reads] at raised
      cases raised
    · rw [same] at raised
      cases raised
      rcases marked with ⟨_, other⟩ | ⟨version, id, marked, above, isNewer⟩
      · exact absurd isNewer (other version)
      · exact ⟨version, id, isNewer, marked, above⟩
  · exact fun _ _ there _ => .inl there
  · exact fun done => absurd done running

/-- What is known of a reached state is what initialization owes. -/
theorem reached_initialized (closed : initial.Closed)
    (reached : Reached limit initial p tree (readMarker limit initial)) :
    Initialized limit (Smooth limit) initial (p, tree) := by
  have judged := readMarker_class limit initial
  generalize judgement : readMarker limit initial = result at judged reached
  cases judged with
  | missing nothing =>
    exact direct_initialized (.inl ⟨nothing, rfl⟩) reached.1
      (fun held => absurd rfl held) nofun reached.2.quiet
      (by rintro rfl; exact reached.2.again)
  | invalid marked => exact quarantine_initialized closed (.inl ⟨marked, rfl⟩) reached
  | raises kind marked => exact refused_initialized judgement (.inl ⟨⟨kind, marked⟩, nofun⟩) reached
  | newer version id marked above =>
    exact refused_initialized judgement (.inr ⟨version, id, marked, above, rfl⟩) reached
  | older version id marked below =>
    exact quarantine_initialized closed (.inr ⟨version, marked, below⟩) reached
  | current id marked =>
    cases id with
    | none =>
      exact direct_initialized (.inr marked) reached.1
        (fun held => absurd rfl held) nofun reached.2.quiet
        (by rintro rfl; exact reached.2.again)
    | some points =>
      have same : tree.marker limit = some (.format 1 (some points)) :=
        (StateTree.marker_congr reached.1.2).trans marked
      exact direct_initialized (.inr marked) reached.1.1 (fun _ => reached.1.2)
        (fun own this _ => this ▸ same) reached.2.quiet (by rintro rfl; exact reached.2.again same)

end Results

/-- In every run without an obstacle, with any crashes, initialization gives a state directory what
it owes it. -/
theorem state_root_initialized (limit : Nat) {initial : StateTree} (closed : initial.Closed)
    {acts : List StateAct}
    {s : StateProcess × StateTree} (run : StateRun limit (Smooth limit) (.begins, initial) acts s) :
    Initialized limit (Smooth limit) initial s := by
  have reached : Reached limit initial s.1 s.2 (readMarker limit initial) := by
    refine run.invariant (P := fun s => Reached limit initial s.1 s.2 (readMarker limit initial)) ?_
      (reached_begin closed)
    rintro ⟨p, tree⟩ act _ before ⟨rfl, smooth⟩
    exact reached_step closed before smooth
  exact reached_initialized closed reached

/-- A tree of a few paths. -/
def plainTree (paths : List (List String × TreeNode)) : StateTree := fun path => paths.lookup path

theorem plainTree_closed {paths : List (List String × TreeNode)}
    (parents : ∀ entry ∈ paths, entry.1 = [] ∨ paths.lookup entry.1.dropLast = some .dir) :
    (plainTree paths).Closed := by
  intro path name stands
  obtain ⟨node, found⟩ := Option.ne_none_iff_exists'.mp stands
  obtain ⟨before, after, same, _⟩ := List.lookup_eq_some_iff.mp found
  rcases parents (path ++ [name], node)
    (same ▸ List.mem_append_right _ List.mem_cons_self) with empty | isDir
  · simp at empty
  · rwa [List.dropLast_concat] at isDir

/-- A directory with one file of a database, under a marker. -/
def markedTree (marker : String) : StateTree :=
  plainTree [([], .dir), (["runtime"], .dir), (["runtime", "localflow.db"], .file (some [1])),
    ([stateMarker], .file (some marker.toUTF8.data.toList))]

theorem markedTree_closed (marker : String) : (markedTree marker).Closed :=
  plainTree_closed (by simp [List.lookup, stateMarker])

theorem markedTree_marker (limit : Nat) (marker : String) :
    (markedTree marker).marker limit = some (.parse limit (newlines marker.toList)) := by
  have file : markedTree marker [stateMarker] = some (.file (some marker.toUTF8.data.toList)) := rfl
  rw [StateTree.marker, file]
  exact congrArg some (marker_text limit marker)

def plainToken : InstanceToken := ⟨[48], by decide, by decide, by decide⟩

def plainAdvance : StateAct := .advance "20260101-000000-1" "1.0" plainToken

def olderMarker : String := "\x7b\"format\":0,\"instance_id\":\"ab\"\x7d"

theorem olderMarker_marker : (markedTree olderMarker).marker 10 = some (.format 0 (some [97, 98])) := by
  rw [markedTree_marker]
  exact congrArg some (by decide +kernel)

def laterAdvance : StateAct := .advance "20260102-000000-1" "1.0" plainToken

def firstRecovery : List String := ["recovery", "20260101-000000-1-format-0"]
def laterRecovery : List String := ["recovery", "20260102-000000-1-format-0"]

/-- The directory in which the first process is stopped: it has moved one of the four directories. -/
def stoppedTree : StateTree :=
  (((markedTree olderMarker).put ["recovery"] (some .dir)).put firstRecovery (some .dir)).move
    "runtime" firstRecovery

/-- A smooth operation of a process that has opened its directory. -/
def unobstructed (s : StateProcess × StateTree) : StateAct → Bool
  | .restart => false
  | .advance _ token _ =>
    match s.1 with
    | .unlinks _ => s.2 [stateMarker] ≠ some .dir
    | .creates (path :: _) _ => s.2 path = none ∨ s.2 path = some .dir
    | .marks _ => s.2 [newMarkerName token] = none
    | .begins | .reads | .opens _ _ | .enters _ _ => false
    | _ => true

theorem unobstructed_smooth (s : StateProcess × StateTree) (act : StateAct)
    (passes : unobstructed s act = true) : Smooth 10 s act := by
  obtain ⟨p, tree⟩ := s
  cases act with
  | restart => cases passes
  | advance stamp token fresh =>
    cases p with
    | begins | reads | opens _ _ | enters _ _ => cases passes
    | creates paths kept =>
      cases paths with
      | nil => trivial
      | cons path paths =>
        have clear : tree path = none ∨ tree path = some .dir := of_decide_eq_true passes
        exact clear
    | unlinks =>
      have plain : tree [stateMarker] ≠ some .dir := of_decide_eq_true passes
      exact plain
    | marks =>
      have unused : tree [newMarkerName token] = none := of_decide_eq_true passes
      exact unused
    | moves | writes | replaces | done | raised => trivial

/-- A process that is stopped in the middle of the quarantine of an older format, and the next one
to its end. -/
theorem state_root_initialized_older : ∃ s : StateProcess × StateTree, s.1 = .done ∧
    s.2 (firstRecovery ++ ["runtime", "localflow.db"]) = some (.file (some [1])) ∧
    Initialized 10 (Smooth 10) (markedTree olderMarker) s := by
  have reads : ∀ {act tree}, act ≠ .restart → tree.marker 10 = some (.format 0 (some [97, 98])) →
      Guarded (fun s act t => t = stateStep 10 s act) (Smooth 10) (.reads, tree) act
        (.opens (quarantineReason 0) (some [97, 98]), tree) := by
    intro act tree goes marked
    cases act with
    | restart => exact absurd rfl goes
    | advance stamp token fresh =>
      refine ⟨?_, fun kind raises => ?_⟩
      · have judged : readMarker 10 tree = .opens (quarantineReason 0) (some [97, 98]) := by
          rw [readMarker, marked]
          rfl
        exact congrArg (fun p => (p, tree)) judged.symm
      · rw [marked] at raises
        cases raises
  have free : ∀ rest, (markedTree olderMarker).put ["recovery"] (some .dir)
      ("recovery" :: "20260101-000000-1-format-0" :: rest) = none := by
    simp [StateTree.put, Function.update, markedTree, plainTree, List.lookup, stateMarker]
  have freeAgain : ∀ rest, stoppedTree ("recovery" :: "20260102-000000-1-format-0" :: rest) = none := by
    simp [stoppedTree, StateTree.move, StateTree.put, Function.update, firstRecovery, markedTree,
      plainTree, List.lookup,
      stateMarker]
  have stopped : StateRun 10 (Smooth 10) (.begins, markedTree olderMarker)
      (List.replicate 5 plainAdvance ++ [.restart]) (.begins, stoppedTree) :=
    .cons ⟨rfl, .inr rfl⟩ (.cons (reads nofun olderMarker_marker) (.cons ⟨rfl, .inl rfl⟩
      (.cons ⟨rfl, by decide, free⟩ (.cons ⟨rfl, trivial⟩ (.single ⟨rfl, .inr rfl⟩)))))
  have again : StateRun 10 (Smooth 10) (.begins, stoppedTree) (List.replicate 4 laterAdvance)
      (.moves laterRecovery dynamicNames (some [97, 98]), stoppedTree.put laterRecovery (some .dir)) :=
    .cons ⟨rfl, .inr rfl⟩ (.cons (reads nofun (by decide +kernel)) (.cons ⟨rfl, .inr rfl⟩
      (.single ⟨rfl, by decide, freeAgain⟩)))
  have evaluated : (replay (fun s act => some (stateStep 10 s act)) unobstructed
      (.moves laterRecovery dynamicNames (some [97, 98]), stoppedTree.put laterRecovery (some .dir))
      (List.replicate 17 laterAdvance)).any (fun s => s.1 = .done &&
        s.2 (firstRecovery ++ ["runtime", "localflow.db"]) = some (.file (some [1]))) = true := by
    decide +kernel
  obtain ⟨s, ran, both⟩ := Option.any_eq_true _ _ |>.mp evaluated
  obtain ⟨done, kept⟩ := Bool.and_eq_true _ _ |>.mp both
  have last : StateRun 10 (Smooth 10) _ _ s := (replay_run unobstructed_smooth ran).mono
    (fun step => ⟨(Option.some.inj step.1).symm, step.2⟩)
  exact ⟨s, of_decide_eq_true done, of_decide_eq_true kept,
    state_root_initialized 10 (markedTree_closed olderMarker) (stopped.append (again.append last))⟩

def infiniteMarker : String := "\x7b\"format\":Infinity\x7d"

theorem infiniteMarker_marker :
    (markedTree infiniteMarker).marker 10 = some (.raises "OverflowError") := by
  rw [markedTree_marker]
  exact congrArg some (by decide +kernel)

/-- A format that is no integer at all stops initialization with an exception of its own. -/
theorem state_root_overflows :
    ¬ ∀ (limit : Nat) (initial : StateTree), initial.Closed → ∀ (acts : List StateAct)
    (s : StateProcess × StateTree), StateRun limit (fun _ _ => True) (.begins, initial) acts s →
      Initialized limit (fun _ _ => True) initial s := by
  intro initializes
  have judged : readMarker 10 (markedTree infiniteMarker) = .raised (.uncaught "OverflowError") := by
    rw [readMarker, infiniteMarker_marker]
  have reads : stateStep 10 (.reads, markedTree infiniteMarker) plainAdvance =
      (.raised (.uncaught "OverflowError"), markedTree infiniteMarker) :=
    congrArg (fun p => (p, markedTree infiniteMarker)) judged
  have owes := initializes 10 _ (markedTree_closed infiniteMarker) [plainAdvance, plainAdvance] _
    (.cons ⟨rfl, trivial⟩ (.cons ⟨reads.symm, trivial⟩ (.nil _)))
  obtain ⟨version, id, same, _⟩ := owes.quiet _ rfl
  cases same

/-! ## A process that is not stopped ends -/

def StateProcess.rank : StateProcess → Nat
  | .begins => 21
  | .reads => 20
  | .opens _ _ => 19
  | .enters _ _ => 18
  | .moves _ names _ => 13 + names.length
  | .unlinks _ => 12
  | .creates todo _ => 4 + todo.length
  | .marks _ => 3
  | .writes _ _ _ => 2
  | .replaces _ _ _ => 1
  | .done | .raised _ => 0

theorem advance_rank (limit : Nat) (stamp token : String) (fresh : InstanceToken) (tree : StateTree)
    (p : StateProcess)
    (active : p.rank ≠ 0) : (p.advance limit stamp token fresh tree).1.rank < p.rank := by
  cases p with
  | done => exact absurd rfl active
  | raised e => exact absurd rfl active
  | begins =>
    rw [StateProcess.advance]
    cases tree.mkdir true [] <;> simp [StateProcess.rank]
  | reads =>
    show (readMarker limit tree).rank < 20
    have judged := readMarker_class limit tree
    generalize readMarker limit tree = result at judged ⊢
    cases judged <;> simp [StateProcess.rank, stateDirectories]
  | opens reason kept =>
    rw [StateProcess.advance]
    cases tree.mkdir true ["recovery"] <;> simp [StateProcess.rank]
  | enters reason kept =>
    rw [StateProcess.advance]
    cases tree.mkdir false ["recovery", stamp ++ "-" ++ reason] <;> simp [StateProcess.rank,
      dynamicNames]
  | moves directory names kept =>
    cases names with
    | nil => simp [StateProcess.advance, StateProcess.rank]
    | cons name names => simp [StateProcess.advance, StateProcess.rank]
  | unlinks kept =>
    rw [StateProcess.advance]
    cases tree.unlink [stateMarker] <;> simp [StateProcess.rank, stateDirectories]
  | creates todo kept =>
    cases todo with
    | nil => simp [StateProcess.advance, StateProcess.rank]
    | cons path todo =>
      rw [StateProcess.advance]
      cases tree.mkdir true path <;> simp [StateProcess.rank]
  | marks kept =>
    rw [StateProcess.advance]
    split
    · simp [StateProcess.rank]
    · split <;> simp [StateProcess.rank]
  | writes kept points temporary => simp [StateProcess.advance, StateProcess.rank]
  | replaces kept points temporary =>
    rw [StateProcess.advance]
    cases tree.replace [temporary] [stateMarker] <;> simp [StateProcess.rank]

/-- After as many operations as its rank the process has ended. -/
theorem advance_ends (limit : Nat) (acts : List StateAct) (s : StateProcess × StateTree)
    (steady : ∀ act ∈ acts, act ≠ .restart) (enough : s.1.rank ≤ acts.length) :
    (acts.foldl (stateStep limit) s).1.rank = 0 := by
  induction acts generalizing s with
  | nil => simpa using enough
  | cons act acts ih =>
    refine ih _ (fun later member => steady later (List.mem_cons_of_mem _ member)) ?_
    cases act with
    | restart => exact absurd rfl (steady _ List.mem_cons_self)
    | advance stamp token fresh =>
      by_cases active : s.1.rank = 0
      · have ended : (s.1.advance limit stamp token fresh s.2).1 = s.1 := by
          cases same : s.1 <;> simp [same, StateProcess.rank] at active <;> rfl
        show (s.1.advance limit stamp token fresh s.2).1.rank ≤ _
        rw [ended, active]
        exact Nat.zero_le _
      · have lower := advance_rank limit stamp token fresh s.2 s.1 active
        rw [List.length_cons] at enough
        show (s.1.advance limit stamp token fresh s.2).1.rank ≤ _
        omega

end LocalFlow
