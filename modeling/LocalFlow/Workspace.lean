import LocalFlow.Library.Subtrees
import LocalFlow.Relocating

/-! `WorkspaceRepository`: directories that are made, entries that are moved, copied and deleted,
and where the entries of the workspace are found after any of these. -/
namespace LocalFlow
open Paths FileTrees

/-- `path.is_dir()`. -/
def ConfigTree.isDir (tree : ConfigTree) (limit : Nat) (path : Path) : Bool :=
  match tree.locate limit [] path with
  | some place => tree.isDirectory place
  | none => false

/-- `path.exists() or path.is_symlink()`. -/
def ConfigTree.taken (tree : ConfigTree) (limit : Nat) (path : Path) : Bool :=
  tree.present limit path || tree.isSymlink limit path

namespace WorkspaceRepository

inductive WorkspaceFault where
  | missing (relative : String)
  | taken (relative : String)
  | raised (error : Raised)

/-- What the system does of an operation. It makes `makes` directories at most; `copied` is what a
copy leaves that fails, and `left` what a removal leaves that does. -/
structure System where
  makes : Nat
  renames : Bool
  copied : Option (Branch (Option (List UInt8)))
  left : Option (Path → Bool)

section Operations
variable (base : Path) (limit : Nat) (system : System) (tree : ConfigTree)

/-- `create_directory`. -/
def createDirectory (relative : String) : Except WorkspaceFault Unit × ConfigTree :=
  match path base relative with
  | .error e => (.error (.raised e), tree)
  | .ok logical =>
    if tree.taken limit logical then (.error (.taken relative), tree)
    else if logical.any embedsNull then (.error (.raised (.value "embedded null byte")), tree)
    else
      match tree.entryPlace limit logical, system.makes with
      | some place, _ + 1 =>
        if (tree.entry place).isNone ∧ tree.isDirectory (parent place) then
          (.ok (), tree.put place .directory)
        else (.error (.raised .os), tree)
      | _, _ => (.error (.raised .os), tree)

/-- What `move` and `copy` check: the paths of the source and of the target. -/
def checkTransfer (inside : String) (source target : String) : Except WorkspaceFault (Path × Path) :=
  match path base source with
  | .error e => .error (.raised e)
  | .ok old =>
    match path base target with
    | .error e => .error (.raised e)
    | .ok new =>
      if tree.taken limit old = false then .error (.missing source)
      else if tree.taken limit new then .error (.taken target)
      else if tree.isDir limit old = false ∧ isSupported new = false then
        .error (.raised (.value "unsupported workspace file type"))
      else if tree.isDir limit old = true ∧ old <+: new then .error (.raised (.value inside))
      else .ok (old, new)

/-- The directories that are made for the target, and the places of the two. -/
def makeWay (old new : Path) : ConfigTree × Except WorkspaceFault (Path × Path) :=
  if (parent new).any embedsNull then (tree, .error (.raised (.value "embedded null byte")))
  else
    match FileTree.makeDirectories limit tree system.makes [] (parent new) with
    | (made, none) => (made, .error (.raised .os))
    | (made, some directory) =>
      if embedsNull (name new) then (made, .error (.raised (.value "embedded null byte")))
      else
        match ConfigTree.entryPlace made limit old with
        | some oldPlace => (made, .ok (oldPlace, directory ++ [name new]))
        | none => (made, .error (.raised .os))

def prepare (inside : String) (source target : String) :
    ConfigTree × Except WorkspaceFault (Path × Path) :=
  match checkTransfer base limit tree inside source target with
  | .error e => (tree, .error e)
  | .ok (old, new) => makeWay limit system tree old new

/-- `move`. -/
def move (source target : String) : Except WorkspaceFault Unit × ConfigTree :=
  match prepare base limit system tree "directory cannot move inside itself" source target with
  | (made, .error e) => (.error e, made)
  | (made, .ok (old, new)) =>
    if system.renames ∧ FileTree.Fits made old new then (.ok (), made.shift old new)
      else (.error (.raised .os), made)

/-- `copy`: a symbolic link itself, a directory with all that is in it, or a file. -/
def copy (source target : String) : Except WorkspaceFault Unit × ConfigTree :=
  match prepare base limit system tree "directory cannot copy inside itself" source target with
  | (made, .error e) => (.error e, made)
  | (made, .ok (old, new)) =>
    if (made.entry new).isSome then (.error (.raised .os), made)
    else
      match system.copied with
      | none => (.ok (), made.plant new (made.branch old))
      | some part => (.error (.raised .os), made.plant new part)

/-- An entry is renamed to `trash` and removed. -/
def discard (place trash : Path) : Except WorkspaceFault Unit × ConfigTree :=
  if system.renames ∧ FileTree.Fits tree place trash then
    match system.left with
    | none => (.ok (), (tree.shift place trash).plant trash .none)
    | some keep =>
      (.error (.raised .os),
        (tree.shift place trash).plant trash (((tree.shift place trash).branch trash).filter keep))
  else (.error (.raised .os), tree)

def trashOf (token : String) (place : Path) : Path := parent place ++ [".localflow-delete-" ++ token]

/-- `delete`, with the hexadecimal digits that it draws. -/
def delete (relative token : String) : Except WorkspaceFault Unit × ConfigTree :=
  match path base relative with
  | .error e => (.error (.raised e), tree)
  | .ok logical =>
    if tree.taken limit logical = false then (.error (.missing relative), tree)
    else
      match tree.entryPlace limit logical with
      | none => (.error (.raised .os), tree)
      | some place => discard system tree place (trashOf token place)

end Operations

/-- What happens to the workspace. `edit` is a file that is written, by `write` or from outside. -/
inductive WorkspaceAct where
  | createDirectory (relative : String) (system : System)
  | move (source target : String) (system : System)
  | copy (source target : String) (system : System)
  | delete (relative token : String) (system : System)
  | edit (place : Path) (content : Option (List UInt8))

section Acts
variable (base : Path) (limit : Nat) (tree : ConfigTree)

def apply : WorkspaceAct → ConfigTree
  | .createDirectory relative system => (createDirectory base limit system tree relative).2
  | .move source target system => (move base limit system tree source target).2
  | .copy source target system => (copy base limit system tree source target).2
  | .delete relative token system => (delete base limit system tree relative token).2
  | .edit place content => tree.put place (.file content)

/-- The entry that an act removes, with all that is below it, and the one that it replaces. -/
def removed : WorkspaceAct → Option Path
  | .delete relative token system =>
    match path base relative with
    | .error _ => none
    | .ok logical =>
      (tree.entryPlace limit logical).filter (fun place => system.renames ∧
        FileTree.Fits tree place (trashOf token place))
  | .edit edited _ => if tree.isDirectory edited then none else some edited
  | _ => none

/-- What an act renames, and how. -/
def relocated : WorkspaceAct → Option (Path × Path)
  | .move source target system =>
    match prepare base limit system tree "directory cannot move inside itself" source target with
    | (_, .error _) => none
    | (made, .ok (old, new)) => if system.renames ∧ FileTree.Fits made old new then
        some (old, new) else none
  | _ => none

/-- Where an entry is found after an act, unless the act is there to remove it. -/
def follow (act : WorkspaceAct) (place : Path) : Option Path :=
  if ∃ gone ∈ removed base limit tree act, gone <+: place then none
  else
    match relocated base limit tree act with
    | some (old, new) => some (FileTree.shifted old new place)
    | none => some place

/-- Acts one after another. -/
def applyAll : ConfigTree → List WorkspaceAct → ConfigTree
  | tree, [] => tree
  | tree, act :: acts => applyAll (apply base limit tree act) acts

def followAll : ConfigTree → List WorkspaceAct → Path → Option Path
  | _, [], place => some place
  | tree, act :: acts, place =>
    (follow base limit tree act place).bind (followAll (apply base limit tree act) acts)

end Acts

/-! ## What one act does -/

section Steps
variable {base : Path} {limit : Nat} {system : System} {tree made : ConfigTree}
  {source target inside : String}
variable {old new place found : Path} {entry : Entry (Option (List UInt8))} {act : WorkspaceAct}

/-- What stands in a tree stands in the other one. -/
def Extends (tree next : ConfigTree) : Prop :=
  ∀ place entry, tree.entry place = some entry → next.entry place = some entry

theorem extends_put (vacant : tree.entry place = none) (entry : Entry (Option (List UInt8))) :
    Extends tree (tree.put place entry) := by
  intro other found stands
  have apart : other ≠ place := by
    rintro rfl
    rw [vacant] at stands
    cases stands
  unfold FileTree.put
  split
  · exact (if_neg apart).trans stands
  · exact stands

theorem extends_plant (vacant : tree.entry place = none) (branch : Branch (Option (List UInt8))) :
    Extends tree (tree.plant place branch) := by
  intro other found stands
  rw [FileTree.entry_plant_other]
  · exact stands
  · intro below
    rw [FileTree.entry_vacant vacant below] at stands
    cases stands

theorem extends_makeDirectories (limit allowed : Nat) (tree : ConfigTree) (place names : Path) :
    Extends tree (FileTree.makeDirectories limit tree allowed place names).1 := by
  induction names generalizing tree allowed place with
  | nil => exact fun _ _ stands => stands
  | cons name rest ih =>
    unfold FileTree.makeDirectories
    split
    · rename_i vacant
      split
      · exact fun _ _ stands => stands
      · exact fun other found stands =>
          ih _ _ _ other found (extends_put vacant .directory other found stands)
    · split
      · split
        · exact ih _ _ _
        · exact fun _ _ stands => stands
      · exact fun _ _ stands => stands

theorem extends_makeWay : Extends tree (makeWay limit system tree old new).1 := by
  have grown := extends_makeDirectories limit system.makes tree [] (parent new)
  unfold makeWay
  split
  · exact fun _ _ stands => stands
  · split
    · next isMade =>
      rw [isMade] at grown
      exact grown
    · next isMade =>
      rw [isMade] at grown
      split
      · exact grown
      · split <;> exact grown

/-- Before a move or a copy acts, nothing is lost. -/
theorem extends_prepare : Extends tree (prepare base limit system tree inside source target).1 := by
  unfold prepare
  split
  · exact fun _ _ stands => stands
  · exact extends_makeWay

theorem path_plain {relative : String} {logical : Path} (plain : Plain base)
    (ok : path base relative = .ok logical) :
    Plain logical ∧ logical ≠ [] := by
  unfold path at ok
  dsimp only at ok
  split at ok
  · cases ok
  next inside =>
    split at ok
    · cases ok
    next headed =>
      split at ok
      · cases ok
      · cases ok
        refine ⟨fun member => ?_, fun empty => ?_⟩
        · obtain above | below := List.mem_append.mp member
          · exact plain above
          · exact inside (.inr below)
        · rw [List.append_eq_nil_iff.mp empty |>.2] at headed
          exact headed (by simp)

theorem checkTransfer_ok {first second : Path}
    (checked : checkTransfer base limit tree inside source target = .ok (first, second)) :
    path base target = .ok second ∧ tree.taken limit second = false := by
  unfold checkTransfer at checked
  split at checked
  · cases checked
  split at checked
  · cases checked
  next isTarget =>
    split at checked
    · cases checked
    split at checked
    · cases checked
    next free =>
      split at checked
      · cases checked
      split at checked <;> cases checked
      exact ⟨isTarget, by simpa using free⟩

/-- The name that `move` and `copy` check is still free once the directories above it have been made. -/
theorem prepare_free (plain : Plain base)
    (ready : prepare base limit system tree inside source target = (made, .ok (old, new))) :
    made.entry new = none := by
  unfold prepare at ready
  split at ready
  · cases ready
  next first second checked =>
    obtain ⟨isTarget, free⟩ := checkTransfer_ok checked
    obtain ⟨plainTarget, some_target⟩ := path_plain plain isTarget
    have whole := parent_name some_target
    have climbs : name second ≠ ".." := fun same => plainTarget (same ▸ name_mem whole)
    have plainParent : Plain (parent second) := fun member =>
      plainTarget (List.dropLast_subset _ member)
    obtain ⟨absent, unlinked⟩ := Bool.or_eq_false_iff.mp free
    unfold makeWay at ready
    split at ready
    · cases ready
    split at ready
    · cases ready
    next directory isMade =>
      split at ready
      · cases ready
      split at ready <;> cases ready
      have vacant := vacant_of_absent plainParent climbs whole absent isMade
      obtain nothing | ⟨rfl, text, isLink, _⟩ := vacant.free
      · exact nothing
      · have found := FileTree.makeDirectories_found limit system.makes made.rooted plainParent
        rw [isMade] at found
        unfold ConfigTree.isSymlink ConfigTree.entryPlace at unlinked
        rw [(found rfl).1, Option.map_some, Option.bind_some, isLink] at unlinked
        cases unlinked

/-- What is not below a discarded entry stays. -/
theorem entry_discard (kept : system.renames ∧ FileTree.Fits tree old new → ¬old <+: place)
    (stands : tree.entry place = some entry) :
    (discard system tree old new).2.entry place = some entry := by
  unfold discard
  split
  · next fits =>
    have away : ¬new <+: place := fits.2.away (by simp [stands])
    have found := FileTree.entry_shifted fits.2 stands
    rw [FileTree.shifted, if_neg (kept fits)] at found
    split <;> exact (FileTree.entry_plant_other away).trans found
  · exact stands

theorem entry_createDirectory (relative : String) (stands : tree.entry place = some entry) :
    (createDirectory base limit system tree relative).2.entry place = some entry := by
  unfold createDirectory
  split
  · exact stands
  · split
    · exact stands
    · split
      · exact stands
      · split
        · split
          · next vacant => exact extends_put (Option.isNone_iff_eq_none.mp vacant.1) _ _ _ stands
          · exact stands
        · exact stands

theorem entry_copy (source target : String) (stands : tree.entry place = some entry) :
    (copy base limit system tree source target).2.entry place = some entry := by
  have made := @extends_prepare base limit system tree source target
    "directory cannot copy inside itself" place entry stands
  unfold copy
  split
  · next isMade =>
    rw [isMade] at made
    exact made
  · next isMade =>
    rw [isMade] at made
    split
    · exact made
    · next free =>
      have vacant := Option.not_isSome_iff_eq_none.mp free
      split <;> exact extends_plant vacant _ _ _ made

theorem entry_delete (relative token : String) (stands : tree.entry place = some entry)
    (kept : ¬∃ gone ∈ removed base limit tree (.delete relative token system), gone <+: place) :
    (delete base limit system tree relative token).2.entry place = some entry := by
  simp only [removed] at kept
  unfold delete
  split
  · exact stands
  · next isPath =>
    simp only [isPath] at kept
    split
    · exact stands
    · split
      · exact stands
      · next isPlace =>
        rw [isPlace] at kept
        refine entry_discard (fun fits inside => kept ⟨_, ?_, inside⟩) stands
        simpa using fits

/-- A move that renames does so in a tree that has all that this one has. -/
theorem move_relocated
    (isRelocated : relocated base limit tree (.move source target system) = some (old, new)) :
    ∃ made, Extends tree made ∧ made.Fits old new ∧
    (move base limit system tree source target).2 = made.shift old new := by
  have grown := @extends_prepare base limit system tree source target
    "directory cannot move inside itself"
  simp only [relocated] at isRelocated
  unfold move
  split at isRelocated
  · cases isRelocated
  · next made _ _ isMade =>
    split at isRelocated
    · next fits =>
      cases isRelocated
      rw [isMade] at grown
      exact ⟨made, grown, fits.2, by simp only [if_pos fits]⟩
    · cases isRelocated

theorem move_stays (stays : relocated base limit tree (.move source target system) = none) :
    Extends tree (move base limit system tree source target).2 := by
  have grown := @extends_prepare base limit system tree source target
    "directory cannot move inside itself"
  simp only [relocated] at stays
  unfold move
  split at stays
  · next isMade =>
    rw [isMade] at grown
    exact grown
  · next isMade =>
    split at stays
    · cases stays
    · next misfit =>
      rw [isMade] at grown
      simpa only [if_neg misfit] using grown

/-- An entry is where `follow` says. -/
theorem entry_follow (followed : follow base limit tree act place = some found)
    (stands : tree.entry place = some entry) :
    (apply base limit tree act).entry found = some entry := by
  rw [follow, Option.ite_none_left_eq_some] at followed
  obtain ⟨kept, isFound⟩ := followed
  cases act with
  | createDirectory relative system =>
    cases isFound
    exact entry_createDirectory relative stands
  | move source target system =>
    split at isFound
    · next isRelocated =>
      cases isFound
      obtain ⟨made, grown, fits, isMoved⟩ := move_relocated isRelocated
      rw [apply, isMoved]
      exact FileTree.entry_shifted fits (grown _ _ stands)
    · next stays =>
      cases isFound
      exact move_stays stays _ _ stands
  | copy source target system =>
    cases isFound
    exact entry_copy source target stands
  | delete relative token system =>
    cases isFound
    exact entry_delete relative token stands kept
  | edit edited content =>
    cases isFound
    simp only [apply, FileTree.put]
    split
    · next fits =>
      have apart : place ≠ edited := by
        rintro rfl
        exact kept ⟨place, by simp [removed, fits.2.1], List.prefix_refl place⟩
      exact (if_neg apart).trans stands
    · exact stands

/-- No two entries are found at one place. -/
theorem follow_injective {one two : Path} (first : tree.entry one ≠ none)
    (second : tree.entry two ≠ none)
    (isOne : follow base limit tree act one = some found)
    (isTwo : follow base limit tree act two = some found) : one = two := by
  rw [follow, Option.ite_none_left_eq_some] at isOne isTwo
  replace isOne := isOne.2
  replace isTwo := isTwo.2
  cases act with
  | move source target system =>
    split at isOne
    · next isRelocated =>
      obtain ⟨made, grown, fits, _⟩ := move_relocated isRelocated
      rw [isRelocated] at isTwo
      have stays : ∀ place, tree.entry place ≠ none → made.entry place ≠ none := by
        intro place stands
        obtain ⟨entry, isEntry⟩ := Option.ne_none_iff_exists'.mp stands
        simp [grown place entry isEntry]
      exact FileTree.shifted_injective fits (stays one first) (stays two second)
        (Option.some.inj (isOne.trans isTwo.symm))
    · next stays =>
      rw [stays] at isTwo
      exact Option.some.inj (isOne.trans isTwo.symm)
  | _ => exact Option.some.inj (isOne.trans isTwo.symm)

end Steps

/-! ## Whole runs -/

section Runs
variable {base : Path} {limit : Nat} {tree : ConfigTree} {acts : List WorkspaceAct} {found : Path}

theorem entry_followAll {place : Path} {entry : Entry (Option (List UInt8))}
    (followed : followAll base limit tree acts place = some found)
    (stands : tree.entry place = some entry) :
    (applyAll base limit tree acts).entry found = some entry := by
  induction acts generalizing tree place with
  | nil =>
    cases followed
    exact stands
  | cons act acts ih =>
    obtain ⟨next, isNext, later⟩ := Option.bind_eq_some_iff.mp followed
    exact ih later (entry_follow isNext stands)

theorem followAll_injective {one two : Path} (first : tree.entry one ≠ none)
    (second : tree.entry two ≠ none)
    (isOne : followAll base limit tree acts one = some found)
    (isTwo : followAll base limit tree acts two = some found) :
    one = two := by
  induction acts generalizing tree one two with
  | nil => exact Option.some.inj (isOne.trans isTwo.symm)
  | cons act acts ih =>
    obtain ⟨nextOne, isNextOne, laterOne⟩ := Option.bind_eq_some_iff.mp isOne
    obtain ⟨nextTwo, isNextTwo, laterTwo⟩ := Option.bind_eq_some_iff.mp isTwo
    have stays : ∀ place next, tree.entry place ≠ none → follow base limit tree act place = some next →
        (apply base limit tree act).entry next ≠ none := by
      intro place next stands isNext
      obtain ⟨entry, isEntry⟩ := Option.ne_none_iff_exists'.mp stands
      rw [entry_follow isNext isEntry]
      exact Option.some_ne_none entry
    have same := ih (stays one nextOne first isNextOne)
      (stays two nextTwo second isNextTwo) laterOne laterTwo
    exact follow_injective first second isNextOne (same ▸ isNextTwo)

/-- Whatever is created, moved, copied, deleted and written in a workspace, and whichever of it
fails: each entry that was neither deleted nor written over is where the moves have brought it, as
it was, and no two have become one. -/
theorem workspace_keeps (base : Path) (limit : Nat) (tree : ConfigTree) (acts : List WorkspaceAct) :
    (∀ place found entry, followAll base limit tree acts place = some found →
      tree.entry place = some entry →
      (applyAll base limit tree acts).entry found = some entry) ∧
    (∀ one two found, tree.entry one ≠ none → tree.entry two ≠ none →
      followAll base limit tree acts one = some found →
      followAll base limit tree acts two = some found → one = two) :=
  ⟨fun _ _ _ followed stands => entry_followAll followed stands,
    fun _ _ _ first second isOne isTwo => followAll_injective first second isOne isTwo⟩

end Runs

end WorkspaceRepository

end LocalFlow
