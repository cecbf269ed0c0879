import LocalFlow.ConfigFiles
import LocalFlow.Library.Walks
import Mathlib.Data.Fintype.Card
import Mathlib.Data.List.Sort

/-! `WorkspaceRepository.entries`: the listing of the workspace, which follows symbolic links to
directories and may come back to where it was. Nothing changes while it is made. -/
namespace LocalFlow.WorkspaceRepository
open Paths GraphWalks

/-- What `is_dir` and `is_file` say, with the device and inode of a directory. `other` is neither,
or is not told. -/
inductive ItemKind (ι : Type) where
  | directory (identity : ι)
  | file
  | other

structure Item (ι : Type) where
  name : FileName
  symlink : Bool
  kind : ItemKind ι

/-- What `iterdir` finds in a directory that is reached as a path, or none where the system refuses
it or the kind of an item that is to be sorted. -/
structure Directories (ι : Type) where
  items : List FileName → ι → Option (List (Item ι))
  distinct : ∀ logical directory found, items logical directory = some found →
    (found.map Item.name).Nodup

inductive EntryKind where
  | directory | file
  deriving DecidableEq

structure WorkspaceEntry where
  path : List FileName
  kind : EntryKind
  symlink : Bool

/-- `item.name == "__pycache__" or item.name.startswith(".localflow-")`. -/
def hidden (name : FileName) : Bool :=
  name.text = "__pycache__" ∨ ".localflow-".toList.isPrefixOf name.text.toList

section Listing
variable {ι : Type} (disk : Directories ι) (casefold : String → String)

def Item.isDirectory (item : Item ι) : Bool :=
  match item.kind with
  | .directory _ => true
  | _ => false

/-- The key of an item is at most that of another one. -/
def Item.Precedes (a b : Item ι) : Prop :=
  a.isDirectory = true ∧ b.isDirectory = false ∨
    a.isDirectory = b.isDirectory ∧ casefold a.name.text ≤ casefold b.name.text

instance : DecidableRel (Item.Precedes casefold : Item ι → Item ι → Prop) :=
  fun _ _ => inferInstanceAs (Decidable (_ ∨ _))

/-- The items one after another, up to the first that raises. -/
def collect {α β : Type} (each : α → Except Raised (List β)) : List α → Except Raised (List β)
  | [] => .ok []
  | a :: rest => do
    let first ← each a
    let later ← collect each rest
    .ok (first ++ later)

/-- The items that are shown, in the order of the page. -/
def shown (found : List (Item ι)) : List (Item ι) :=
  (found.insertionSort (Item.Precedes casefold)).filter (fun item => !hidden item.name)

/-- One turn of the loop over the items. -/
def listItem (below : List FileName → ι → Except Raised (List WorkspaceEntry))
    (logical : List FileName) (item : Item ι) :
    Except Raised (List WorkspaceEntry) :=
  match item.kind with
  | .directory identity => do
    let inner ← below (logical ++ [item.name]) identity
    .ok (⟨logical ++ [item.name], .directory, item.symlink⟩ :: inner)
  | .file => .ok (if isSupported [item.name.text] then
      [⟨logical ++ [item.name], .file, item.symlink⟩] else [])
  | .other => .ok []

/-- `visit`. `limit` is how many more calls the interpreter lets it nest. -/
def visit [DecidableEq ι] : Nat → List ι → List FileName → ι → Except Raised (List WorkspaceEntry)
  | 0, _, _, _ => .error .recursion
  | limit + 1, ancestors, logical, directory =>
    if directory ∈ ancestors then .ok []
    else
      match disk.items logical directory with
      | none => .ok []
      | some found => collect (listItem (visit limit (directory :: ancestors)) logical)
          (shown casefold found)

def configName : FileName := ⟨"config", by decide⟩

/-- `entries`. -/
def entries [DecidableEq ι] (limit : Nat) (config : Option ι) : Except Raised (List WorkspaceEntry) :=
  match config with
  | none => .ok []
  | some directory => visit disk casefold limit [] [configName] directory

/-! ## What is listed -/

/-- A directory has another one below it, or a link to one. -/
def Directories.Leads (logical : List FileName) (directory : ι) (name : FileName)
    (identity : ι) : Prop :=
  ∃ found, disk.items logical directory = some found ∧ ∃ item ∈ found, hidden item.name = false ∧
    item.name = name ∧
    item.kind = .directory identity

/-- What is shown of an item. -/
def Item.entry (logical : List FileName) (item : Item ι) : Option WorkspaceEntry :=
  match item.kind with
  | .directory _ => some ⟨logical ++ [item.name], .directory, item.symlink⟩
  | .file => if isSupported [item.name.text] then some ⟨logical ++ [item.name], .file, item.symlink⟩
      else none
  | .other => none

/-- A directory has an item that is shown. -/
def Directories.Shows (logical : List FileName) (directory : ι) (entry : WorkspaceEntry) : Prop :=
  ∃ found, disk.items logical directory = some found ∧ ∃ item ∈ found, hidden item.name = false ∧
    item.entry logical = some entry

end Listing

section Collecting
variable {α β : Type} {each : α → Except Raised (List β)} {items : List α} {found : List β}

theorem collect_cons {a : α} (collected : collect each (a :: items) = .ok found) :
    ∃ first later, each a = .ok first ∧ collect each items = .ok later ∧ found = first ++ later := by
  unfold collect at collected
  cases isFirst : each a with
  | error e =>
    rw [isFirst] at collected
    cases collected
  | ok first =>
    cases isLater : collect each items with
    | error e =>
      rw [isFirst, isLater] at collected
      cases collected
    | ok later =>
      rw [isFirst, isLater] at collected
      cases collected
      exact ⟨first, later, rfl, rfl, rfl⟩

theorem collect_ok (all : ∀ a ∈ items, ∃ part, each a = .ok part) :
    ∃ found, collect each items = .ok found := by
  induction items with
  | nil => exact ⟨[], rfl⟩
  | cons a items ih =>
    obtain ⟨first, isFirst⟩ := all a List.mem_cons_self
    obtain ⟨later, isLater⟩ := ih (fun b member => all b (List.mem_cons_of_mem a member))
    exact ⟨first ++ later, by rw [collect, isFirst, isLater]; rfl⟩

/-- Nothing was collected from an item that raised. -/
theorem collect_part (collected : collect each items = .ok found) {a : α} (member : a ∈ items) :
    ∃ part, each a = .ok part := by
  induction items generalizing found with
  | nil => exact absurd member List.not_mem_nil
  | cons b items ih =>
    obtain ⟨first, later, isFirst, isLater, _⟩ := collect_cons collected
    obtain rfl | below := List.mem_cons.mp member
    · exact ⟨first, isFirst⟩
    · exact ih isLater below

theorem mem_collect (collected : collect each items = .ok found) {b : β} :
    b ∈ found ↔ ∃ a ∈ items, ∃ part, each a = .ok part ∧ b ∈ part := by
  induction items generalizing found with
  | nil =>
    cases collected
    simp
  | cons a items ih =>
    obtain ⟨first, later, isFirst, isLater, rfl⟩ := collect_cons collected
    rw [List.mem_append, ih isLater]
    simp [isFirst]

theorem collect_pairwise {R : β → β → Prop} (collected : collect each items = .ok found)
    (inside : ∀ a ∈ items, ∀ part, each a = .ok part → part.Pairwise R)
    (across : items.Pairwise (fun a b => ∀ s t, each a = .ok s → each b = .ok t →
      ∀ x ∈ s, ∀ y ∈ t, R x y)) :
    found.Pairwise R := by
  induction items generalizing found with
  | nil =>
    cases collected
    exact .nil
  | cons a items ih =>
    obtain ⟨first, later, isFirst, isLater, rfl⟩ := collect_cons collected
    obtain ⟨apart, across⟩ := List.pairwise_cons.mp across
    refine List.pairwise_append.mpr ⟨inside a List.mem_cons_self first isFirst,
      ih isLater (fun b member => inside b (List.mem_cons_of_mem a member)) across,
        fun x isX y isY => ?_⟩
    obtain ⟨b, member, part, isPart, isY⟩ := (mem_collect isLater).mp isY
    exact apart b member first part isFirst isPart x isX y isY

end Collecting

section Visits
variable {ι : Type} {disk : Directories ι} {casefold : String → String} {limit : Nat}
variable {logical names : List FileName} {ancestors way : List ι} {directory last : ι}
  {item : Item ι} {found : List (Item ι)}
variable {entry : WorkspaceEntry} {listed part : List WorkspaceEntry}
variable {below : List FileName → ι → Except Raised (List WorkspaceEntry)}

theorem mem_shown : item ∈ shown casefold found ↔ item ∈ found ∧ hidden item.name = false := by
  rw [shown, List.mem_filter, List.mem_insertionSort, Bool.not_eq_true']

theorem shown_distinct (distinct : (found.map Item.name).Nodup) :
    (shown casefold found).Pairwise (fun a b => a.name ≠ b.name) := by
  have sorted : ((found.insertionSort (Item.Precedes casefold)).map Item.name).Nodup :=
    ((List.perm_insertionSort _ found).map Item.name).nodup_iff.mpr distinct
  exact (List.pairwise_map.mp sorted).filter _

/-- An item is shown itself, and what is listed below it. -/
theorem mem_listItem (isPart : listItem below logical item = .ok part) :
    entry ∈ part ↔ item.entry logical = some entry ∨
      ∃ identity inner, item.kind = .directory identity ∧
        below (logical ++ [item.name]) identity = .ok inner ∧ entry ∈ inner := by
  unfold listItem at isPart
  unfold Item.entry
  cases isKind : item.kind with
  | directory identity =>
    rw [isKind] at isPart
    dsimp only at isPart
    cases isInner : below (logical ++ [item.name]) identity with
    | error e =>
      rw [isInner] at isPart
      cases isPart
    | ok inner =>
      rw [isInner] at isPart
      cases isPart
      simp [eq_comm, isInner]
  | file =>
    rw [isKind] at isPart
    cases isPart
    by_cases supported : isSupported [item.name.text] = true <;> simp [supported, eq_comm]
  | other =>
    rw [isKind] at isPart
    cases isPart
    simp

theorem path_entry (itself : item.entry logical = some entry) :
    entry.path = logical ++ [item.name] := by
  unfold Item.entry at itself
  split at itself
  · cases itself
    rfl
  · rw [Option.ite_none_right_eq_some] at itself
    cases itself.2
    rfl
  · cases itself

/-- The same item at another path. -/
theorem entry_elsewhere (other : List FileName) (itself : item.entry logical = some entry) :
    ∃ moved, item.entry other = some moved ∧ moved.kind = entry.kind ∧
      moved.symlink = entry.symlink := by
  unfold Item.entry at itself ⊢
  split at itself
  · cases itself
    exact ⟨_, rfl, rfl, rfl⟩
  · rw [Option.ite_none_right_eq_some] at itself
    obtain ⟨supported, same⟩ := itself
    cases same
    exact ⟨_, if_pos supported, rfl, rfl⟩
  · cases itself

theorem text_injective : Function.Injective FileName.text := by
  rintro ⟨a, _⟩ ⟨b, _⟩ same
  cases same
  rfl

variable [DecidableEq ι]

/-- What a call that did not raise has found. -/
theorem visit_cases (visited : visit disk casefold (limit + 1) ancestors logical directory =
      .ok listed) :
    listed = [] ∧ (directory ∈ ancestors ∨ disk.items logical directory = none) ∨
      directory ∉ ancestors ∧ ∃ found, disk.items logical directory = some found ∧
        collect (listItem (visit disk casefold limit (directory :: ancestors)) logical)
        (shown casefold found) = .ok listed := by
  unfold visit at visited
  split at visited
  · next again =>
    cases visited
    exact .inl ⟨rfl, .inl again⟩
  · next fresh =>
    split at visited
    · next refused =>
      cases visited
      exact .inl ⟨rfl, .inr refused⟩
    · next found isFound => exact .inr ⟨fresh, found, isFound, visited⟩

/-- What is listed is what the ways show that come to no directory twice. -/
theorem mem_visit (visited : visit disk casefold limit ancestors logical directory = .ok listed) :
    entry ∈ listed ↔ ∃ names way last, Walk disk.Leads logical directory names way last ∧ way.Nodup ∧
      (∀ i ∈ way, i ∉ ancestors) ∧ disk.Shows (logical ++ names) last entry := by
  induction limit generalizing ancestors logical directory listed with
  | zero => cases visited
  | succ limit ih =>
    obtain ⟨rfl, ended⟩ | ⟨fresh, found, isFound, collected⟩ := visit_cases visited
    · refine iff_of_false List.not_mem_nil ?_
      rintro ⟨names, way, last, walk, _, away, shows⟩
      obtain again | refused := ended
      · exact away directory walk.begins again
      · cases walk with
        | here =>
          obtain ⟨found, isFound, _⟩ := shows
          rw [List.append_nil, refused] at isFound
          cases isFound
        | step leads =>
          obtain ⟨found, isFound, _⟩ := leads
          rw [refused] at isFound
          cases isFound
    rw [mem_collect collected]
    constructor
    · rintro ⟨item, isItem, part, isPart, member⟩
      obtain ⟨inFound, visible⟩ := mem_shown.mp isItem
      obtain itself | ⟨identity, inner, isKind, isInner, member⟩ := (mem_listItem isPart).mp member
      · refine ⟨[], [directory], directory, .here _ _, List.nodup_singleton _, fun i isHere => ?_, ?_⟩
        · obtain rfl := List.mem_singleton.mp isHere
          exact fresh
        · exact ⟨found, by rw [List.append_nil, isFound], item, inFound, visible,
            by rw [List.append_nil, itself]⟩
      · obtain ⟨names, way, last, walk, nodup, away, shows⟩ := (ih isInner).mp member
        refine ⟨item.name :: names, directory ::
          way, last, .step ⟨found, isFound, item, inFound, visible, rfl, isKind⟩ walk,
          List.nodup_cons.mpr ⟨fun again => away directory again List.mem_cons_self, nodup⟩,
            fun i member => ?_, ?_⟩
        · obtain rfl | later := List.mem_cons.mp member
          · exact fresh
          · exact fun above => away i later (List.mem_cons_of_mem _ above)
        · rwa [List.append_cons]
    · rintro ⟨names, way, last, walk, nodup, away, shows⟩
      cases walk with
      | here =>
        obtain ⟨found', isFound', item, inFound, visible, itself⟩ := shows
        rw [List.append_nil] at isFound' itself
        obtain rfl : found = found' := Option.some.inj (isFound.symm.trans isFound')
        have isItem : item ∈ shown casefold found := mem_shown.mpr ⟨inFound, visible⟩
        obtain ⟨part, isPart⟩ := collect_part collected isItem
        exact ⟨item, isItem, part, isPart, (mem_listItem isPart).mpr (.inl itself)⟩
      | step leads walk =>
        obtain ⟨found', isFound', item, inFound, visible, rfl, isKind⟩ := leads
        obtain rfl : found = found' := Option.some.inj (isFound.symm.trans isFound')
        have isItem : item ∈ shown casefold found := mem_shown.mpr ⟨inFound, visible⟩
        obtain ⟨part, isPart⟩ := collect_part collected isItem
        obtain ⟨apart, nodup⟩ := List.nodup_cons.mp nodup
        refine ⟨item, isItem, part, isPart, (mem_listItem isPart).mpr (.inr ?_)⟩
        cases isInner : visit disk casefold limit (directory :: ancestors)
          (logical ++ [item.name]) _ with
        | error e =>
          rw [listItem, isKind] at isPart
          dsimp only at isPart
          rw [isInner] at isPart
          cases isPart
        | ok inner =>
          refine ⟨_, inner, isKind, isInner,
            (ih isInner).mpr ⟨_, _, _, walk, nodup, fun i member => ?_, ?_⟩⟩
          · rintro above
            obtain rfl | above := List.mem_cons.mp above
            · exact apart member
            · exact away i (List.mem_cons_of_mem _ member) above
          · rwa [List.append_assoc, List.singleton_append]

/-- What is listed below a path is longer. -/
theorem path_visit (visited : visit disk casefold limit ancestors logical directory = .ok listed)
    (member : entry ∈ listed) :
    ∃ name rest, entry.path = logical ++ name :: rest := by
  obtain ⟨names, _, _, _, _, _, found, _, item, _, _, itself⟩ := (mem_visit visited).mp member
  rw [path_entry itself, List.append_assoc]
  cases names with
  | nil => exact ⟨item.name, [], rfl⟩
  | cons name names => exact ⟨name, names ++ [item.name], rfl⟩

theorem path_listItem
    (isPart : listItem (visit disk casefold limit ancestors) logical item = .ok part)
    (member : entry ∈ part) :
    logical ++ [item.name] <+: entry.path := by
  obtain itself | ⟨identity, inner, _, isInner, member⟩ := (mem_listItem isPart).mp member
  · rw [path_entry itself]
  · obtain ⟨name, rest, isPath⟩ := path_visit isInner member
    exact ⟨name :: rest, isPath.symm⟩

/-- A path is listed once, and before what is below it. -/
theorem visit_pairwise (visited : visit disk casefold limit ancestors logical directory = .ok listed) :
    listed.Pairwise (fun a b => ¬b.path <+: a.path) := by
  induction limit generalizing ancestors logical directory listed with
  | zero => cases visited
  | succ limit ih =>
    obtain ⟨rfl, _⟩ | ⟨_, found, isFound, collected⟩ := visit_cases visited
    · exact .nil
    refine collect_pairwise collected (fun item _ part isPart => ?_) ?_
    · unfold listItem at isPart
      split at isPart
      · cases isInner : visit disk casefold limit (directory :: ancestors)
          (logical ++ [item.name]) _ with
        | error e =>
          rw [isInner] at isPart
          cases isPart
        | ok inner =>
          rw [isInner] at isPart
          cases isPart
          refine List.pairwise_cons.mpr ⟨fun entry member above => ?_, ih isInner⟩
          obtain ⟨name, rest, isPath⟩ := path_visit isInner member
          have shorter := above.length_le
          rw [isPath, List.length_append, List.length_cons] at shorter
          dsimp only at shorter
          omega
      · cases isPart
        split
        · exact List.pairwise_singleton _ _
        · exact .nil
      · cases isPart
        exact .nil
    · refine (shown_distinct (disk.distinct _ _ _ isFound)).imp ?_
      intro a b apart s t isS isT x isX y isY above
      have left := path_listItem isS isX
      have right := (path_listItem isT isY).trans above
      have same : logical ++ [a.name] = logical ++ [b.name] :=
        (List.prefix_of_prefix_length_le left right (by simp)).eq_of_length (by simp)
      exact apart (List.singleton_inj.mp (List.append_cancel_left same))

theorem visit_nodup (visited : visit disk casefold limit ancestors logical directory = .ok listed) :
    (listed.map (fun entry => posix entry.path)).Nodup := by
  refine List.pairwise_map.mpr ((visit_pairwise visited).imp_of_mem ?_)
  intro a b isA isB apart same
  obtain ⟨name, rest, isPath⟩ := path_visit visited isA
  obtain ⟨other, more, isOther⟩ := path_visit visited isB
  have names := congrArg parts same
  rw [parts_posix (by simp [isPath]), parts_posix (by simp [isOther])] at names
  have samePath : a.path = b.path := List.map_injective_iff.mpr text_injective names
  exact apart (samePath ▸ List.prefix_rfl)

/-- The calls do not nest deeper than there are directories. -/
theorem visit_ends [Fintype ι] (nodup : ancestors.Nodup)
    (enough : Fintype.card ι < limit + ancestors.length) :
    ∃ listed, visit disk casefold limit ancestors logical directory = .ok listed := by
  induction limit generalizing ancestors logical directory with
  | zero =>
    have := nodup.length_le_card
    omega
  | succ limit ih =>
    unfold visit
    split
    · exact ⟨[], rfl⟩
    · next fresh =>
      split
      · exact ⟨[], rfl⟩
      · refine collect_ok (fun item _ => ?_)
        unfold listItem
        split
        · next identity _ =>
          have deeper : Fintype.card ι < limit + (directory :: ancestors).length := by
            rw [List.length_cons]
            omega
          obtain ⟨inner, isInner⟩ := @ih (logical ++ [item.name]) (directory :: ancestors) identity
            (List.nodup_cons.mpr ⟨fresh, nodup⟩) deeper
          exact ⟨_, by rw [isInner]; rfl⟩
        · exact ⟨_, rfl⟩
        · exact ⟨_, rfl⟩

/-- The listing of a workspace with finitely many directories ends, whatever links lead back. It has
what the ways show that come to no directory twice, each path once and a directory before what is in
it. Where what is found in a directory does not depend on the path to it, nothing that any way leads
to is missing: it is listed in the same directory. -/
theorem entries_exact [Fintype ι] (disk : Directories ι) (casefold : String → String) (limit : Nat)
    (config : ι) :
    (Fintype.card ι < limit → ∃ listed, entries disk casefold limit (some config) = .ok listed) ∧
    ∀ listed, entries disk casefold limit (some config) = .ok listed →
      (∀ entry, entry ∈ listed ↔
        ∃ names way last, Walk disk.Leads [configName] config names way last ∧ way.Nodup ∧
        disk.Shows (configName :: names) last entry) ∧
      listed.Pairwise (fun a b => ¬b.path <+: a.path) ∧
      (listed.map (fun entry => posix entry.path)).Nodup ∧
      ((∀ logical other directory, disk.items logical directory = disk.items other directory) →
        ∀ names way last, Walk disk.Leads [configName] config names way last →
          ∀ entry, disk.Shows (configName :: names) last entry →
          ∃ names' way' listedEntry, Walk disk.Leads [configName] config names' way' last ∧
            way'.Nodup ∧ listedEntry ∈ listed ∧
            disk.Shows (configName :: names') last listedEntry ∧
              listedEntry.path.getLast? = entry.path.getLast? ∧
            listedEntry.kind = entry.kind ∧ listedEntry.symlink = entry.symlink) := by
  refine ⟨fun enough => visit_ends .nil enough, fun listed visited => ?_⟩
  have exactly : ∀ entry, entry ∈ listed ↔
    ∃ names way last, Walk disk.Leads [configName] config names way last ∧ way.Nodup ∧
      disk.Shows (configName :: names) last entry := by
    intro entry
    rw [mem_visit visited]
    simp
  refine ⟨exactly, visit_pairwise visited, visit_nodup visited,
    fun uniform names way last walk entry shows => ?_⟩
  have leads : ∀ before later i label j, disk.Leads before i label j → disk.Leads later i label j := by
    rintro before later i label j ⟨found, isFound, rest⟩
    exact ⟨found, (uniform later before i).trans isFound, rest⟩
  obtain ⟨names', way', simple, nodup⟩ := walk.simple leads
  obtain ⟨found, isFound, item, inFound, visible, itself⟩ := shows
  obtain ⟨listedEntry, shownThere, sameKind, sameLink⟩ := entry_elsewhere (configName :: names') itself
  have there : disk.Shows (configName :: names') last listedEntry :=
    ⟨found, (uniform _ _ last).trans isFound, item, inFound, visible, shownThere⟩
  refine ⟨names', way', listedEntry, simple, nodup,
    (exactly _).mpr ⟨names', way', last, simple, nodup, there⟩, there, ?_,
    sameKind, sameLink⟩
  rw [path_entry shownThere, path_entry itself, List.getLast?_concat, List.getLast?_concat]

/-- A directory with a link back to the one above. -/
example :
    let name (text : String) (named : text ≠ "" ∧ text ≠ "." ∧ text ≠ ".." ∧ '/' ∉ text.toList ∧
      Char.ofNat 0 ∉ text.toList) :
      FileName := ⟨text, named⟩
    let disk : Directories Bool := {
      items := fun _ inner => some (if inner then [⟨name "up" (by decide), true, .directory false⟩] else
        [⟨name "a.yaml" (by decide), false, .file⟩, ⟨name "team" (by decide), false, .directory true⟩])
      distinct := by
        rintro _ (_ | _) _ ⟨⟩ <;> simp [name] }
    (entries disk id 3 (some false)).toOption.map
      (fun listed => listed.map (fun entry => posix entry.path)) =
      some ["config/team", "config/team/up", "config/a.yaml"] := by
  decide +kernel

end Visits

end LocalFlow.WorkspaceRepository
