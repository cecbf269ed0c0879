import LocalFlow.Library.Paths
import Mathlib.Data.List.Induction
import Mathlib.Data.List.Infix
import Mathlib.Order.Basic

/-! A tree of directories, files and symbolic links. A place is a path from the root that meets no
link; the links on its way lead any other path to its place, or to none. -/
namespace FileTrees
open Paths

inductive Entry (α : Type*) where
  | directory
  | file (content : α)
  | link (text : String)

/-- What stands at each place. Whatever stands below a place stands in a directory. -/
structure FileTree (α : Type*) where
  entry : Path → Option (Entry α)
  rooted : entry [] = some .directory
  nested : ∀ place name, entry (place ++ [name]) ≠ none → entry place = some .directory

variable {α : Type*}

namespace FileTree

/-- The root alone. -/
def empty : FileTree α where
  entry := fun place => if place = [] then some .directory else none
  rooted := if_pos rfl
  nested := by
    intro place name stands
    rw [if_neg (List.append_ne_nil_of_right_ne_nil _ (List.cons_ne_nil _ _))] at stands
    exact absurd rfl stands

variable (tree : FileTree α)

def isDirectory (place : Path) : Bool :=
  match tree.entry place with
  | some .directory => true
  | _ => false

theorem isDirectory_iff {place : Path} :
    tree.isDirectory place = true ↔ tree.entry place = some .directory := by
  unfold isDirectory
  split
  · rename_i same
    exact iff_of_true rfl same
  · rename_i other
    exact iff_of_false (fun never => nomatch never) other

/-- An entry put into a directory, in the place of anything but a directory. -/
def put (place : Path) (entry : Entry α) : FileTree α :=
  if fits : place ≠ [] ∧ tree.isDirectory place = false ∧ tree.isDirectory (parent place) = true then
    { entry := fun other => if other = place then some entry else tree.entry other
      rooted := by
        rw [if_neg fits.1.symm]
        exact tree.rooted
      nested := by
        obtain ⟨_, leaf, above⟩ := fits
        intro directory name stands
        have isAbove : directory ≠ place → tree.entry directory = some .directory →
            (if directory = place then some entry else tree.entry directory) = some .directory := by
          intro other isDirectory
          rwa [if_neg other]
        by_cases self : directory ++ [name] = place
        · have isParent : parent place = directory := self ▸ List.dropLast_concat
          refine isAbove (fun same => ?_) (tree.isDirectory_iff.mp (isParent ▸ above))
          have longer := congrArg List.length (self.trans same.symm)
          rw [List.length_append, List.length_singleton] at longer
          omega
        · rw [if_neg self] at stands
          have isDirectory := tree.nested directory name stands
          refine isAbove (fun same => ?_) isDirectory
          rw [← same, tree.isDirectory_iff.mpr isDirectory] at leaf
          cases leaf }
  else tree

/-- The tree without a file or a link. -/
def remove (place : Path) : FileTree α :=
  if leaf : tree.isDirectory place = false then
    { entry := fun other => if other = place then none else tree.entry other
      rooted := by
        refine (if_neg fun same => ?_).trans tree.rooted
        rw [← same, tree.isDirectory_iff.mpr tree.rooted] at leaf
        cases leaf
      nested := by
        intro directory name stands
        have below : tree.entry (directory ++ [name]) ≠ none := by
          intro none
          split at stands
          · exact stands rfl
          · exact stands none
        have isDirectory := tree.nested directory name below
        refine (if_neg fun same => ?_).trans isDirectory
        rw [← same, tree.isDirectory_iff.mpr isDirectory] at leaf
        cases leaf }
  else tree

/-! ## Paths and places -/

/-- Where the components of a link's text begin. -/
def origin (place : Path) (text : String) : Path := if isAbsolute text then [] else place

def advance (follow : Path → Path → Path) (place : Path) (name : String) : Path :=
  if name = ".." then parent place
  else
    match tree.entry (place ++ [name]) with
    | some (.link text) => follow (origin place text) (parts text)
    | _ => place ++ [name]

/-- The path behind the links, which need not lead to anything. Links nested deeper than `limit` are
left alone. -/
def settle : Nat → Path → Path → Path
  | 0 => List.foldl climb
  | limit + 1 => List.foldl (tree.advance (settle limit))

/-- `os.path.realpath` of a path seen from a place. -/
def resolve (limit : Nat) (place names : Path) : Path := tree.settle (limit + 1) place names

def descend (follow : Path → Path → Option Path) (place : Path) (name : String) : Option Path :=
  if tree.isDirectory place = false then none
  else if name = ".." then some (parent place)
  else
    match tree.entry (place ++ [name]) with
    | some (.link text) => follow (origin place text) (parts text)
    | _ => some (place ++ [name])

/-- The place of a path as the system finds it: what is passed on the way has to be a directory. -/
def seek : Nat → Path → Path → Option Path
  | 0, _, _ => none
  | limit + 1, place, names => names.foldlM (tree.descend (seek limit)) place

def locate (limit : Nat) (place names : Path) : Option Path := tree.seek (limit + 1) place names

def tangles (follow : Path → Path → Option Path) (below : Path → Path → Bool) : Path → Path → Bool
  | _, [] => false
  | place, name :: rest =>
    if tree.isDirectory place = false then false
    else if name = ".." then tangles follow below (parent place) rest
    else
      match tree.entry (place ++ [name]) with
      | some (.link text) =>
        below (origin place text) (parts text) ||
          (follow (origin place text) (parts text)).elim false
            (fun next => tangles follow below next rest)
      | _ => tangles follow below (place ++ [name]) rest

/-- Whether the system gives a path up since the links on its way are nested too deep (`ELOOP`). -/
def loops : Nat → Path → Path → Bool
  | 0 => fun _ _ => true
  | limit + 1 => tree.tangles (tree.seek limit) (loops limit)

/-- Whether a link stands at a place. -/
def isLink (place : Path) : Bool :=
  match tree.entry place with
  | some (.link _) => true
  | _ => false

/-- A place on whose way stands no link. -/
def Settled (place : Path) : Prop := ∀ front ∈ place.inits, tree.isLink front = false

instance (place : Path) : Decidable (tree.Settled place) := inferInstanceAs (Decidable (∀ front ∈ _, _))

/-- `mkdir -p` of components seen from a place, where the system makes `allowed` directories at
most: the tree with those it has made, and the place of the last unless it failed. -/
def makeDirectories (limit : Nat) : FileTree α → Nat → Path → Path → FileTree α × Option Path
  | tree, _, place, [] => (tree, some place)
  | tree, allowed, place, name :: rest =>
    match tree.entry (place ++ [name]) with
    | none =>
      match allowed with
      | 0 => (tree, none)
      | allowed + 1 => makeDirectories limit (tree.put (place ++ [name]) .directory) allowed
          (place ++ [name]) rest
    | some _ =>
      match tree.locate limit place [name] with
      | some next => if tree.isDirectory next then makeDirectories limit tree allowed next rest
          else (tree, none)
      | none => (tree, none)

end FileTree

/-! ## Entries -/

variable {tree tree' : FileTree α} {place names next : Path} {name : String} {limit : Nat}

namespace FileTree

theorem entry_put (entry : Entry α) (some_place : place ≠ [])
    (leaf : tree.entry place ≠ some .directory)
    (above : tree.entry (parent place) = some .directory) (other : Path) :
    (tree.put place entry).entry other = if other = place then some entry else tree.entry other := by
  have free : tree.isDirectory place = false := Bool.eq_false_iff.mpr (leaf ∘ tree.isDirectory_iff.mp)
  rw [put, dif_pos ⟨some_place, free, tree.isDirectory_iff.mpr above⟩]

theorem entry_remove (leaf : tree.entry place ≠ some .directory) (other : Path) :
    (tree.remove place).entry other = if other = place then none else tree.entry other := by
  rw [remove, dif_pos (Bool.eq_false_iff.mpr (leaf ∘ tree.isDirectory_iff.mp))]

/-- Nothing stands below what is no directory. -/
theorem entry_below (leaf : tree.entry place ≠ some .directory) (some_names : names ≠ []) :
    tree.entry (place ++ names) = none := by
  induction names using List.reverseRecOn with
  | nil => exact absurd rfl some_names
  | append_singleton names name ih =>
    by_contra stands
    rw [← List.append_assoc] at stands
    have above := tree.nested _ _ stands
    rcases names.eq_nil_or_concat with rfl | ⟨front, last, rfl⟩
    · rw [List.append_nil] at above
      exact leaf above
    · rw [ih (by simp)] at above
      cases above

end FileTree

/-! ## What the links decide -/

namespace FileTree

theorem resolve_append (first second : Path) :
    tree.resolve limit place (first ++ second) = tree.resolve limit
    (tree.resolve limit place first) second :=
  List.foldl_append

theorem locate_append (first second : Path) : tree.locate limit place (first ++ second) =
    (tree.locate limit place first).bind (fun next => tree.locate limit next second) :=
  List.foldlM_append

theorem seek_cons {rest : Path} :
    tree.seek (limit + 1) place (name :: rest) =
      (tree.descend (tree.seek limit) place name).bind (fun next => tree.seek (limit + 1) next rest) :=
  List.foldlM_cons

/-- One component of a path that the system finds. -/
theorem descend_some {follow : Path → Path → Option Path}
    (found : tree.descend follow place name = some next) :
    tree.entry place = some .directory ∧
      (name = ".." ∧ next = parent place ∨
        name ≠ ".." ∧ (∃ text, tree.entry (place ++ [name]) = some (.link text) ∧
          follow (origin place text) (parts text) = some next) ∨
        name ≠ ".." ∧ (∀ text, tree.entry (place ++ [name]) ≠ some (.link text)) ∧ next = place ++
        [name]) := by
  unfold descend at found
  split at found
  · cases found
  · rename_i isDirectory
    refine ⟨tree.isDirectory_iff.mp (Bool.of_not_eq_false isDirectory), ?_⟩
    split at found
    · rename_i climbs
      exact .inl ⟨climbs, (Option.some.inj found).symm⟩
    · rename_i stays
      split at found
      · rename_i text isLink
        exact .inr (.inl ⟨stays, text, isLink, found⟩)
      · rename_i plain
        exact .inr (.inr ⟨stays, plain, (Option.some.inj found).symm⟩)

theorem seek_cons_some {rest : Path} {found : Path}
    (sought : tree.seek (limit + 1) place (name :: rest) = some found) :
    ∃ next, tree.descend (tree.seek limit) place name = some next ∧
      tree.seek (limit + 1) next rest = some found := by
  rw [seek_cons] at sought
  exact Option.bind_eq_some_iff.mp sought

/-- What the system finds is what `realpath` says. -/
theorem settle_of_seek {found : Path} (sought : tree.seek limit place names = some found) :
    tree.settle limit place names = found := by
  induction limit generalizing place names found with
  | zero => cases sought
  | succ limit ihLimit =>
    induction names generalizing place with
    | nil => exact Option.some.inj sought
    | cons name rest ih =>
      obtain ⟨next, isNext, later⟩ := seek_cons_some sought
      have step : tree.advance (tree.settle limit) place name = next := by
        obtain ⟨_, ⟨climbs, rfl⟩ | ⟨stays, text, isLink, follows⟩ | ⟨stays, plain, rfl⟩⟩ :=
          descend_some isNext
        · rw [advance, if_pos climbs]
        · rw [advance, if_neg stays, isLink]
          exact ihLimit follows
        · rw [advance, if_neg stays]
          split
          · rename_i text isLink
            exact absurd isLink (plain text)
          · rfl
      rw [settle, List.foldl_cons, step]
      exact ih later

theorem resolve_of_locate (located : tree.locate limit place names = some next) :
    tree.resolve limit place names = next :=
  settle_of_seek located

/-- Trees with the same links resolve alike. -/
theorem settle_congr
    (links : ∀ other text, tree.entry other = some (.link text) ↔
      tree'.entry other = some (.link text)) :
    tree.settle limit = tree'.settle limit := by
  induction limit with
  | zero => rfl
  | succ limit ih =>
    have step : tree.advance (tree.settle limit) = tree'.advance (tree'.settle limit) := by
      funext place name
      rw [advance, advance, ih]
      split
      · rfl
      · split
        · rename_i text isLink
          rw [(links _ text).mp isLink]
        · rename_i plain
          split
          · rename_i text isLink
            exact absurd ((links _ text).mpr isLink) (plain text)
          · rfl
    rw [settle, settle, step]

theorem resolve_congr
    (links : ∀ other text, tree.entry other = some (.link text) ↔
      tree'.entry other = some (.link text)) :
    tree.resolve limit = tree'.resolve limit :=
  settle_congr links

/-- A place found with few nested links is found with more. -/
theorem seek_mono {more : Nat} {found : Path} (le : limit ≤ more)
    (sought : tree.seek limit place names = some found) :
    tree.seek more place names = some found := by
  induction limit generalizing more place names found with
  | zero => cases sought
  | succ limit ihLimit =>
    obtain ⟨more, rfl⟩ := Nat.exists_eq_add_of_le' (Nat.one_le_of_lt le)
    have le : limit ≤ more := Nat.le_of_succ_le_succ le
    induction names generalizing place with
    | nil => exact sought
    | cons name rest ih =>
      obtain ⟨next, isNext, later⟩ := seek_cons_some sought
      have step : tree.descend (tree.seek more) place name = some next := by
        obtain ⟨above, ⟨climbs, rfl⟩ | ⟨stays, text, isLink, follows⟩ | ⟨stays, plain, rfl⟩⟩ :=
          descend_some isNext
        · rw [descend, tree.isDirectory_iff.mpr above, if_neg Bool.noConfusion, if_pos climbs]
        · rw [descend, tree.isDirectory_iff.mpr above, if_neg Bool.noConfusion, if_neg stays, isLink]
          exact ihLimit le follows
        · rw [descend, tree.isDirectory_iff.mpr above, if_neg Bool.noConfusion, if_neg stays]
          split
          · rename_i text isLink
            exact absurd isLink (plain text)
          · rfl
      rw [seek_cons, step]
      exact ih later

theorem seek_starts {found : Path} (sought : tree.seek (limit + 1) place names = some found)
    (ends : tree.entry found = some .directory) : tree.entry place = some .directory := by
  cases names with
  | nil =>
    cases Option.some.inj sought
    exact ends
  | cons name rest =>
    obtain ⟨_, isNext, _⟩ := seek_cons_some sought
    exact (descend_some isNext).1

theorem origin_plain {text : String} (plain : Plain place) : Plain (origin place text) := by
  unfold origin
  split
  · exact List.not_mem_nil
  · exact plain

theorem concat_plain (plain : Plain place) (stays : name ≠ "..") : Plain (place ++ [name]) := by
  intro member
  rcases List.mem_append.mp member with member | same
  · exact plain member
  · exact stays (List.mem_singleton.mp same).symm

/-- What `realpath` finds does not climb. -/
theorem settle_plain (plain : Plain place) : Plain (tree.settle limit place names) := by
  induction limit generalizing place names with
  | zero =>
    induction names generalizing place with
    | nil => exact plain
    | cons name rest ih => exact ih (climb_plain plain)
  | succ limit ihLimit =>
    induction names generalizing place with
    | nil => exact plain
    | cons name rest ih =>
      refine ih ?_
      unfold advance
      split
      · exact fun member => plain (List.dropLast_subset _ member)
      · rename_i stays
        split
        · exact ihLimit (origin_plain plain)
        · exact concat_plain plain stays

/-- A link that leads to no directory. -/
def Leaf (tree : FileTree α) (limit : Nat) (other : Path) (text : String) : Prop :=
  ∀ found, tree.seek limit (origin (parent other) text) (parts text) = some found →
    tree.entry found ≠ some .directory

/-- A directory is found where it was as long as the directories stay, and the links that lead to
one. -/
theorem seek_kept {bound : Nat} {found : Path}
    (directories : ∀ other, tree.entry other = some .directory → tree'.entry other = some .directory)
    (links : ∀ other text, tree.entry other = some (.link text) →
      tree'.entry other = some (.link text) ∨ tree.Leaf bound other text)
    (le : limit ≤ bound + 1) (sought : tree.seek limit place names = some found)
    (ends : tree.entry found = some .directory) : tree'.seek limit place names = some found := by
  induction limit generalizing place names found with
  | zero => cases sought
  | succ limit ihLimit =>
    induction names generalizing place with
    | nil => exact sought
    | cons name rest ih =>
      obtain ⟨next, isNext, later⟩ := seek_cons_some sought
      have isDirectory := seek_starts later ends
      have step : tree'.descend (tree'.seek limit) place name = some next := by
        obtain ⟨above, cases'⟩ := descend_some isNext
        rw [descend, tree'.isDirectory_iff.mpr (directories place above), if_neg Bool.noConfusion]
        rcases cases' with ⟨climbs, rfl⟩ | ⟨stays, text, isLink, follows⟩ | ⟨stays, _, rfl⟩
        · rw [if_pos climbs]
        · rw [if_neg stays]
          rcases links _ text isLink with kept | leaf
          · rw [kept]
            exact ihLimit (by omega) follows isDirectory
          · refine absurd isDirectory (leaf next ?_)
            rw [parent, List.dropLast_concat]
            exact seek_mono (by omega) follows
        · rw [if_neg stays, directories _ isDirectory]
      rw [seek_cons, step]
      exact ih later

theorem locate_kept {found : Path}
    (directories : ∀ other, tree.entry other = some .directory → tree'.entry other = some .directory)
    (links : ∀ other text, tree.entry other = some (.link text) →
      tree'.entry other = some (.link text) ∨ tree.Leaf limit other text)
    (located : tree.locate limit place names = some found) (ends : tree.entry found = some .directory) :
    tree'.locate limit place names = some found :=
  seek_kept directories links (Nat.le_refl _) located ends

theorem locate_cons {found : Path} {rest : Path} (first : tree.locate limit place [name] = some next)
    (later : tree.locate limit next rest = some found) :
    tree.locate limit place (name :: rest) = some found := by
  obtain ⟨middle, isNext, same⟩ := seek_cons_some first
  cases Option.some.inj same
  rw [locate, seek_cons, isNext]
  exact later

theorem locate_leaf (above : tree.entry place = some .directory) (stays : name ≠ "..")
    (plain : ∀ text, tree.entry (place ++ [name]) ≠ some (.link text)) :
    tree.locate limit place [name] = some (place ++ [name]) := by
  have step : tree.descend (tree.seek limit) place name = some (place ++ [name]) := by
    rw [descend, tree.isDirectory_iff.mpr above, if_neg Bool.noConfusion, if_neg stays]
    split
    · rename_i text isLink
      exact absurd isLink (plain text)
    · rfl
  rw [locate, seek_cons, step]
  rfl

theorem locate_directory (above : tree.entry place = some .directory) (stays : name ≠ "..")
    (below : tree.entry (place ++ [name]) = some .directory) :
    tree.locate limit place [name] = some (place ++ [name]) :=
  locate_leaf above stays (fun text isLink => by rw [below] at isLink; cases isLink)

theorem locate_link {text : String} (above : tree.entry place = some .directory) (stays : name ≠ "..")
    (isLink : tree.entry (place ++ [name]) = some (.link text)) :
    tree.locate limit place [name] = tree.seek limit (origin place text) (parts text) := by
  rw [locate, seek_cons, descend, tree.isDirectory_iff.mpr above, if_neg Bool.noConfusion,
    if_neg stays, isLink]
  exact Option.bind_fun_some _

/-! ## Places that meet no link -/

theorem resolve_leaf (stays : name ≠ "..")
    (plain : ∀ text, tree.entry (place ++ [name]) ≠ some (.link text)) :
    tree.resolve limit place [name] = place ++ [name] := by
  change tree.advance (tree.settle limit) place name = _
  rw [advance, if_neg stays]
  split
  · rename_i text isLink
    exact absurd isLink (plain text)
  · rfl

/-- Where nothing stands there is no link. -/
theorem resolve_below (leaf : tree.entry place ≠ some .directory) (plain : Plain names) :
    tree.resolve limit place names = place ++ names := by
  induction names generalizing place with
  | nil => exact (List.append_nil place).symm
  | cons name rest ih =>
    have stays : name ≠ ".." := fun same => plain (same ▸ List.mem_cons_self)
    have nothing : tree.entry (place ++ [name]) = none := entry_below leaf (List.cons_ne_nil _ _)
    have step : tree.resolve limit place [name] = place ++ [name] :=
      resolve_leaf stays (fun text isLink => by rw [nothing] at isLink; cases isLink)
    rw [← List.singleton_append, resolve_append, step, ih, List.append_assoc]
    · rw [nothing]
      exact fun never => nomatch never
    · exact fun member => plain (List.mem_cons_of_mem _ member)

theorem isLink_iff : tree.isLink place = true ↔ ∃ text, tree.entry place = some (.link text) := by
  unfold isLink
  split
  · rename_i text isLink
    exact iff_of_true rfl ⟨text, isLink⟩
  · rename_i plain
    exact iff_of_false Bool.noConfusion (fun ⟨text, isLink⟩ => plain text isLink)

/-- Whatever is no link itself stands at a place that meets none. -/
theorem settled_of_entry (stands : tree.entry place ≠ none) (plain : tree.isLink place = false) :
    tree.Settled place := by
  induction place using List.reverseRecOn with
  | nil =>
    intro front isFront
    rw [List.mem_inits, List.prefix_nil] at isFront
    rwa [isFront]
  | append_singleton front last ih =>
    have above := tree.nested front last stands
    have settled : tree.Settled front := by
      refine ih ?_ ?_
      · rw [above]
        exact fun never => nomatch never
      · refine Bool.eq_false_iff.mpr fun isLink => ?_
        obtain ⟨text, isLink⟩ := isLink_iff.mp isLink
        rw [above] at isLink
        cases isLink
    intro other isOther
    rw [List.mem_inits] at isOther
    rcases List.prefix_concat_iff.mp isOther with rfl | before
    · exact plain
    · exact settled other ((List.mem_inits _ _).mpr before)

theorem settled_directory (isDirectory : tree.entry place = some .directory) : tree.Settled place := by
  refine settled_of_entry ?_ (Bool.eq_false_iff.mpr fun linked => ?_)
  · rw [isDirectory]
    exact fun never => nomatch never
  · obtain ⟨text, linked⟩ := isLink_iff.mp linked
    rw [isDirectory] at linked
    cases linked

theorem settled_file {content : α} (isFile : tree.entry place = some (.file content)) :
    tree.Settled place := by
  refine settled_of_entry ?_ (Bool.eq_false_iff.mpr fun linked => ?_)
  · rw [isFile]
    exact fun never => nomatch never
  · obtain ⟨text, linked⟩ := isLink_iff.mp linked
    rw [isFile] at linked
    cases linked

theorem Settled.mono
    (links : ∀ other text, tree'.entry other = some (.link text) → tree.entry other = some (.link text))
    (settled : tree.Settled place) : tree'.Settled place := by
  intro front isFront
  refine Bool.eq_false_iff.mpr fun linked => ?_
  obtain ⟨text, linked⟩ := isLink_iff.mp linked
  exact Bool.eq_false_iff.mp (settled front isFront) (isLink_iff.mpr ⟨text, links front text linked⟩)

/-- A way that meets no link leads where it says. -/
theorem resolve_settled (plain : Plain names) (settled : tree.Settled (place ++ names)) :
    tree.resolve limit place names = place ++ names := by
  induction names generalizing place with
  | nil => exact (List.append_nil place).symm
  | cons name rest ih =>
    have stays : name ≠ ".." := fun same => plain (same ▸ List.mem_cons_self)
    have isNext : place ++ name :: rest = place ++ [name] ++ rest := by
      rw [List.append_assoc, List.singleton_append]
    rw [isNext] at settled ⊢
    have unlinked := settled (place ++ [name]) ((List.mem_inits _ _).mpr (List.prefix_append _ _))
    rw [← List.singleton_append, resolve_append, resolve_leaf stays, ih _ settled]
    · exact fun member => plain (List.mem_cons_of_mem _ member)
    · intro text isLink
      rw [isLink_iff.mpr ⟨text, isLink⟩] at unlinked
      cases unlinked

/-- A directory's place leads to itself. -/
theorem resolve_directory (plain : Plain place) (isDirectory : tree.entry place = some .directory) :
    tree.resolve limit [] place = place :=
  resolve_settled plain (settled_directory isDirectory)

/-- A way that meets no link does not loop. -/
theorem loops_settled (plain : Plain names) (settled : tree.Settled (place ++ names)) :
    tree.loops (limit + 1) place names = false := by
  change tree.tangles _ _ place names = false
  induction names generalizing place with
  | nil => rfl
  | cons name rest ih =>
    have stays : name ≠ ".." := fun same => plain (same ▸ List.mem_cons_self)
    have isNext : place ++ name :: rest = place ++ [name] ++ rest := by
      rw [List.append_assoc, List.singleton_append]
    rw [isNext] at settled
    have unlinked := settled (place ++ [name]) ((List.mem_inits _ _).mpr (List.prefix_append _ _))
    have later := ih (fun member => plain (List.mem_cons_of_mem _ member)) settled
    unfold tangles
    split
    · rfl
    · split
      · rename_i text isLink
        rw [isLink_iff.mpr ⟨text, isLink⟩] at unlinked
        cases unlinked
      · exact later

/-- Double dots climb over the directories themselves. -/
theorem resolve_climbs (count : Nat) :
    tree.resolve limit place (List.replicate count "..") = place.take (place.length - count) := by
  induction count generalizing place with
  | zero =>
    rw [Nat.sub_zero, List.take_length]
    rfl
  | succ count ih =>
    have step : tree.resolve limit place [".."] = place.dropLast := by
      change tree.advance (tree.settle limit) place ".." = _
      rw [advance, if_pos rfl]
      rfl
    rw [List.replicate_succ, ← List.singleton_append, resolve_append, step, ih,
      List.dropLast_eq_take, List.take_take,
      List.length_take]
    congr 1
    omega

/-! ## Trees with the same directories -/

theorem isDirectory_congr
    (directories : ∀ other, tree.entry other = some .directory ↔
      tree'.entry other = some .directory) (place : Path) :
    tree.isDirectory place = tree'.isDirectory place :=
  Bool.eq_iff_iff.mpr (((isDirectory_iff tree).trans (directories place)).trans
    (isDirectory_iff tree').symm)

theorem seek_congr (links : ∀ other text, tree.entry other = some (.link text) ↔
      tree'.entry other = some (.link text))
    (directories : ∀ other, tree.entry other = some .directory ↔ tree'.entry other = some .directory) :
    tree.seek limit = tree'.seek limit := by
  induction limit with
  | zero => rfl
  | succ limit ih =>
    have step : tree.descend (tree.seek limit) = tree'.descend (tree'.seek limit) := by
      funext place name
      rw [descend, descend, ih, isDirectory_congr directories]
      split
      · rfl
      · split
        · rfl
        · split
          · rename_i text isLink
            rw [(links _ text).mp isLink]
          · rename_i plain
            split
            · rename_i text isLink
              exact absurd ((links _ text).mpr isLink) (plain text)
            · rfl
    funext place names
    rw [seek, seek, step]

/-- Trees with the same directories and links loop alike. -/
theorem loops_congr (links : ∀ other text, tree.entry other = some (.link text) ↔
      tree'.entry other = some (.link text))
    (directories : ∀ other, tree.entry other = some .directory ↔ tree'.entry other = some .directory) :
    tree.loops limit = tree'.loops limit := by
  induction limit with
  | zero => rfl
  | succ limit ih =>
    funext place names
    change tree.tangles _ _ place names = tree'.tangles _ _ place names
    rw [seek_congr links directories, ih]
    induction names generalizing place with
    | nil => rfl
    | cons name rest ihNames =>
      unfold tangles
      rw [isDirectory_congr directories]
      split
      · rfl
      · split
        · exact ihNames _
        · split
          · rename_i text isLink
            rw [(links _ text).mp isLink]
            simp only [ihNames]
          · rename_i plain
            split
            · rename_i text isLink
              exact absurd ((links _ text).mpr isLink) (plain text)
            · exact ihNames _

/-! ## Directories that are made -/

/-- What `makeDirectories` adds: directories on the way, where nothing stood. -/
def Grown (tree tree' : FileTree α) (way : Path) : Prop :=
  ∀ other, tree'.entry other = tree.entry other ∨
    tree.entry other = none ∧ tree'.entry other = some .directory ∧ other <+: way

theorem Grown.entry {way other : Path} {entry : Entry α} (grown : Grown tree tree' way)
    (stands : tree.entry other = some entry) : tree'.entry other = some entry := by
  rcases grown other with same | ⟨none, _⟩
  · exact same.trans stands
  · rw [none] at stands
    cases stands

theorem Grown.links {way : Path} (grown : Grown tree tree' way) (other : Path) (text : String) :
    tree.entry other = some (.link text) ↔ tree'.entry other = some (.link text) := by
  refine ⟨grown.entry, fun isLink => ?_⟩
  rcases grown other with same | ⟨_, directory, _⟩
  · exact same.symm.trans isLink
  · rw [directory] at isLink
    cases isLink

theorem makeDirectories_grown (limit allowed : Nat) (above : tree.entry place = some .directory)
    (plain : Plain names) :
    Grown tree (makeDirectories limit tree allowed place names).1 (tree.resolve limit place names) := by
  induction names generalizing tree allowed place with
  | nil => exact fun _ => .inl rfl
  | cons name rest ih =>
    have stays : name ≠ ".." := fun same => plain (same ▸ List.mem_cons_self)
    have plain : Plain rest := fun member => plain (List.mem_cons_of_mem _ member)
    unfold makeDirectories
    split
    · rename_i nothing
      split
      · exact fun _ => .inl rfl
      · rename_i allowed
        have leaf : tree.entry (place ++ [name]) ≠ some .directory := by
          rw [nothing]
          exact fun never => nomatch never
        have entries := entry_put .directory (by simp) leaf (by rwa [parent, List.dropLast_concat])
        have links : ∀ other text, tree.entry other = some (.link text) ↔
            (tree.put (place ++ [name]) .directory).entry other = some (.link text) := by
          intro other text
          rw [entries]
          split
          · rename_i same
            rw [same, nothing]
            exact iff_of_false (fun never => nomatch never) (fun never => nomatch never)
          · exact Iff.rfl
        have step : tree.resolve limit place [name] = place ++ [name] :=
          resolve_leaf stays (fun text isLink => by rw [nothing] at isLink; cases isLink)
        have way : tree.resolve limit place (name :: rest) = place ++ [name] ++ rest := by
          rw [← List.singleton_append, resolve_append, step, resolve_below leaf plain]
        have created : (tree.put (place ++ [name]) .directory).entry (place ++ [name]) =
          some .directory := by
          rw [entries, if_pos rfl]
        have later := ih allowed created plain
        rw [← resolve_congr links, resolve_below leaf plain] at later
        rw [way]
        intro other
        rcases later other with same | ⟨none, directory, before⟩
        · rw [entries] at same
          split at same
          · rename_i self
            exact .inr ⟨self ▸ nothing, same, self ▸ List.prefix_append _ _⟩
          · exact .inl same
        · rw [entries] at none
          split at none
          · cases none
          · exact .inr ⟨none, directory, before⟩
    · split
      · rename_i next located
        split
        · rename_i isDirectory
          rw [← List.singleton_append, resolve_append, resolve_of_locate located]
          exact ih allowed (tree.isDirectory_iff.mp isDirectory) plain
        · exact fun _ => .inl rfl
      · exact fun _ => .inl rfl

/-- Directories that have been made are found where `realpath` says. Either the last of them is new
or all stood there. -/
theorem makeDirectories_found (limit allowed : Nat) (above : tree.entry place = some .directory)
    (plain : Plain names)
    ⦃directory : Path⦄ (made : (makeDirectories limit tree allowed place names).2 = some directory) :
    (makeDirectories limit tree allowed place names).1.locate limit place names = some directory ∧
      (makeDirectories limit tree allowed place names).1.entry directory = some .directory ∧
      (tree.entry directory = none ∨ (makeDirectories limit tree allowed place names).1 = tree) := by
  induction names generalizing tree allowed place with
  | nil =>
    cases Option.some.inj made
    exact ⟨rfl, above, .inr rfl⟩
  | cons name rest ih =>
    have grown : Grown tree (makeDirectories limit tree allowed place (name :: rest)).1 _ :=
      makeDirectories_grown limit allowed above plain
    have stays : name ≠ ".." := fun same => plain (same ▸ List.mem_cons_self)
    have plain : Plain rest := fun member => plain (List.mem_cons_of_mem _ member)
    have stands := grown.entry above
    revert made grown stands
    unfold makeDirectories
    split
    · rename_i nothing
      split
      · intro never
        cases never
      · rename_i allowed
        have leaf : tree.entry (place ++ [name]) ≠ some .directory := by
          rw [nothing]
          exact fun never => nomatch never
        have entries := entry_put .directory (by simp) leaf (by rwa [parent, List.dropLast_concat])
        have created : (tree.put (place ++ [name]) .directory).entry (place ++ [name]) =
          some .directory := by
          rw [entries, if_pos rfl]
        intro made grown stands
        obtain ⟨located, isDirectory, _⟩ := ih allowed created plain made
        have kept := (makeDirectories_grown limit allowed created plain).entry created
        refine ⟨locate_cons (locate_directory stands stays kept) located, isDirectory, .inl ?_⟩
        have isPlace := resolve_of_locate located
        rw [← resolve_congr grown.links, resolve_below leaf plain] at isPlace
        rw [← isPlace]
        cases rest with
        | nil => rwa [List.append_nil]
        | cons second rest => exact entry_below leaf (List.cons_ne_nil _ _)
    · split
      · rename_i next first
        split
        · rename_i isDirectory
          have isDirectory := tree.isDirectory_iff.mp isDirectory
          intro made grown stands
          obtain ⟨located, ends, new⟩ := ih allowed isDirectory plain made
          have kept := locate_kept (fun _ => grown.entry)
            (fun _ _ isLink => .inl (grown.entry isLink)) first isDirectory
          exact ⟨locate_cons kept located, ends, new⟩
        · intro never
          cases never
      · intro never
        cases never

end FileTree

end FileTrees
