import Mathlib.Data.List.Basic
import Mathlib.Tactic.Common

/-! Slash-separated paths as lists of components below the root, where nothing is a symbolic link. -/
namespace Paths

abbrev Path := List String

/-- The components of a text. Empty ones and single dots are dropped. -/
def parts (text : String) : Path :=
  ((text.toList.splitOn '/').map String.ofList).filter (fun part => part ≠ "" ∧ part ≠ ".")

def isAbsolute (text : String) : Bool := text.toList.head? = some '/'

/-- A text seen from a directory. -/
def join (base : Path) (text : String) : Path :=
  if isAbsolute text then parts text else base ++ parts text

def parent (path : Path) : Path := path.dropLast

def climb (path : Path) (part : String) : Path := if part = ".." then path.dropLast else path ++ [part]

/-- The path without its double dots. Above the root there is the root. -/
def normal (path : Path) : Path := path.foldl climb []

/-- The extension of a file name with its dot: what follows the last dot, unless that dot begins or
ends the name. -/
def suffixOf (name : List Char) : List Char :=
  let tail := name.reverse.takeWhile (· ≠ '.')
  if tail = [] ∨ name.length ≤ tail.length + 1 then [] else '.' :: tail.reverse

def name (path : Path) : String := path.getLast?.getD ""

def suffix (path : Path) : String := String.ofList (suffixOf (name path).toList)

/-- The file name without its extension. -/
def stem (path : Path) : String :=
  String.ofList ((name path).toList.take
    ((name path).toList.length - (suffixOf (name path).toList).length))

/-- A path that does not climb. -/
def Plain (path : Path) : Prop := ".." ∉ path

instance (path : Path) : Decidable (Plain path) := inferInstanceAs (Decidable (_ ∉ _))

variable {base path : Path}

theorem foldl_climb (plain : Plain path) : path.foldl climb base = base ++ path := by
  induction path generalizing base with
  | nil => exact (List.append_nil base).symm
  | cons part rest ih =>
    have inner : part ≠ ".." := fun same => plain (same ▸ List.mem_cons_self)
    have plain : Plain rest := fun member => plain (List.mem_cons_of_mem _ member)
    rw [List.foldl_cons, climb, if_neg inner, ih plain, List.append_assoc, List.singleton_append]

theorem normal_plain (plain : Plain path) : normal path = path := by
  rw [normal, foldl_climb plain, List.nil_append]

theorem climb_plain {part : String} (plain : Plain base) : Plain (climb base part) := by
  unfold climb
  split
  · exact fun member => plain (List.dropLast_subset _ member)
  · rename_i inner
    intro member
    obtain member | same := List.mem_append.mp member
    · exact plain member
    · exact inner (List.mem_singleton.mp same).symm

/-- A normal path does not climb. -/
theorem normal_isPlain (path : Path) : Plain (normal path) := by
  suffices climbs : ∀ (path base : Path), Plain base → Plain (path.foldl climb base) from
    climbs path [] List.not_mem_nil
  intro path
  induction path with
  | nil => exact fun _ plain => plain
  | cons part rest ih => exact fun base plain => ih (climb base part) (climb_plain plain)

/-! ## Relative paths -/

/-- What two paths have in common from the root on. -/
def shared : Path → Path → Path
  | a :: start, b :: path => if a = b then a :: shared start path else []
  | _, _ => []

/-- The components that lead from a directory to a place. -/
def wayTo : Path → Path → List String
  | a :: start, b :: path => if a = b then wayTo start path
      else List.replicate (start.length + 1) ".." ++ b :: path
  | start, path => List.replicate start.length ".." ++ path

/-- `os.path.relpath`. -/
def relpath (path start : Path) : String :=
  match wayTo (normal start) (normal path) with
  | [] => "."
  | way => String.ofList (['/'].intercalate (way.map String.toList))

/-- How many directories a path lies below what it shares with another. -/
def above (start path : Path) : Nat := start.length - (shared start path).length

/-- The rest of a path below what another shares with it. -/
def below (start path : Path) : Path := path.drop (shared start path).length

theorem shared_begins (start path : Path) :
    shared start path <+: start ∧ shared start path <+: path := by
  induction start, path using shared.induct with
  | case1 a start path ih =>
    rw [shared, if_pos rfl]
    exact ⟨List.cons_prefix_cons.mpr ⟨rfl, ih.1⟩, List.cons_prefix_cons.mpr ⟨rfl, ih.2⟩⟩
  | case2 a start b path other =>
    rw [shared, if_neg other]
    exact ⟨List.nil_prefix, List.nil_prefix⟩
  | case3 start path short =>
    rw [shared]
    · exact ⟨List.nil_prefix, List.nil_prefix⟩
    · exact short

theorem shared_below (start path : Path) : shared start path ++ below start path = path :=
  List.prefix_iff_eq_append.mp (shared_begins start path).2

/-- The way climbs out of the start as far as what is shared and goes down from there. -/
theorem wayTo_eq (start path : Path) :
    wayTo start path = List.replicate (above start path) ".." ++ below start path := by
  induction start, path using wayTo.induct with
  | case1 a start path ih =>
    rw [wayTo, if_pos rfl, ih]
    unfold above below
    rw [shared, if_pos rfl, List.length_cons, List.length_cons, List.drop_succ_cons,
      Nat.add_sub_add_right]
  | case2 a start b path other =>
    unfold above below
    rw [wayTo, if_neg other, shared, if_neg other]
    rfl
  | case3 start path short =>
    unfold above below
    rw [wayTo, shared]
    · rfl
    · exact short
    · exact short

/-- Components joined by slashes are the components of the text. -/
theorem parts_joined {names : List String} (some_names : names ≠ [])
    (named : ∀ name ∈ names, name ≠ "" ∧ name ≠ "." ∧ '/' ∉ name.toList) :
    parts (String.ofList (['/'].intercalate (names.map String.toList))) = names := by
  have pieces : (['/'].intercalate (names.map String.toList)).splitOn '/' =
    names.map String.toList := by
    refine List.splitOn_intercalate '/' (fun piece member => ?_)
      (fun none => some_names (List.map_eq_nil_iff.mp none))
    obtain ⟨name, isName, rfl⟩ := List.mem_map.mp member
    exact (named name isName).2.2
  have texts : names.map (String.ofList ∘ String.toList) = names :=
    (List.map_congr_left fun name _ => String.ofList_toList).trans (List.map_id names)
  unfold parts
  rw [String.toList_ofList, pieces, List.map_map, texts]
  refine List.filter_eq_self.mpr fun name member => ?_
  obtain ⟨some_name, plain, _⟩ := named name member
  exact decide_eq_true ⟨some_name, plain⟩

/-- Components joined by slashes begin with the first of them. -/
theorem head_joined {first : String} {rest : List String} (some_first : first ≠ "") :
    (['/'].intercalate ((first :: rest).map String.toList)).head? = first.toList.head? := by
  have some_text : first.toList ≠ [] := fun none => some_first (String.toList_inj.mp none)
  obtain ⟨c, text, isText⟩ := List.exists_cons_of_ne_nil some_text
  rw [List.map_cons, isText]
  cases rest with
  | nil => rfl
  | cons => rfl

/-- Components joined by slashes end with the last of them. -/
theorem last_joined {names : List String} {last : String} (isLast : last ∈ names.getLast?)
    (some_last : last ≠ "") :
    (['/'].intercalate (names.map String.toList)).getLast? = last.toList.getLast? := by
  induction names with
  | nil => cases isLast
  | cons name rest ih =>
    cases rest with
    | nil =>
      have isName : name = last := Option.some.inj isLast
      rw [List.map_singleton, List.intercalate_singleton, isName]
    | cons second rest =>
      rw [List.getLast?_cons_cons] at isLast
      have some_rest : ['/'].intercalate ((second :: rest).map String.toList) ≠ [] := by
        intro none
        have last := ih isLast
        rw [none] at last
        exact some_last (String.toList_inj.mp (List.getLast?_eq_none_iff.mp last.symm))
      rw [List.map_cons, List.intercalate_cons_of_ne_nil (by simp),
        List.getLast?_append_of_ne_nil _ some_rest, ih isLast]

theorem mem_intercalate {c : Char} {pieces : List (List Char)} (member : c ∈ ['/'].intercalate pieces) :
    c = '/' ∨ ∃ piece ∈ pieces, c ∈ piece := by
  induction pieces with
  | nil => cases member
  | cons piece rest ih =>
    by_cases last : rest = []
    · subst last
      rw [List.intercalate_singleton] at member
      exact .inr ⟨piece, List.mem_cons_self, member⟩
    · rw [List.intercalate_cons_of_ne_nil last] at member
      obtain member | member := List.mem_append.mp member
      · obtain member | same := List.mem_append.mp member
        · exact .inr ⟨piece, List.mem_cons_self, member⟩
        · exact .inl (List.mem_singleton.mp same)
      · obtain slash | ⟨found, isPiece, member⟩ := ih member
        · exact .inl slash
        · exact .inr ⟨found, List.mem_cons_of_mem _ isPiece, member⟩

/-- Components joined by slashes are no absolute path. -/
theorem joined_relative {names : List String}
    (named : ∀ name ∈ names, name ≠ "" ∧ name ≠ "." ∧ '/' ∉ name.toList) :
    isAbsolute (String.ofList (['/'].intercalate (names.map String.toList))) = false := by
  unfold isAbsolute
  rw [String.toList_ofList]
  refine decide_eq_false fun begins => ?_
  cases names with
  | nil => cases begins
  | cons first rest =>
    obtain ⟨some_first, _, slashless⟩ := named first List.mem_cons_self
    rw [head_joined some_first] at begins
    exact slashless (List.mem_of_mem_head? begins)

section Relpath
variable {start : Path}

/-- A relative path is spelled by its way. -/
theorem relpath_text (plainStart : Plain start) (plain : Plain path) :
    wayTo start path = [] ∧ relpath path start = "." ∨ wayTo start path ≠ [] ∧
      relpath path start = String.ofList
      (['/'].intercalate ((wayTo start path).map String.toList)) := by
  unfold relpath
  rw [normal_plain plainStart, normal_plain plain]
  cases wayTo start path with
  | nil => exact .inl ⟨rfl, rfl⟩
  | cons first rest => exact .inr ⟨List.cons_ne_nil _ _, rfl⟩

theorem wayTo_named (named : ∀ name ∈ below start path, name ≠ "" ∧ name ≠ "." ∧ '/' ∉ name.toList) :
    ∀ name ∈ wayTo start path, name ≠ "" ∧ name ≠ "." ∧ '/' ∉ name.toList := by
  intro name member
  rw [wayTo_eq] at member
  rcases List.mem_append.mp member with climbs | member
  · rw [List.eq_of_mem_replicate climbs]
    decide
  · exact named name member

/-- A relative path is read as its way. -/
theorem join_relpath (plainStart : Plain start) (plain : Plain path)
    (named : ∀ name ∈ below start path, name ≠ "" ∧ name ≠ "." ∧ '/' ∉ name.toList) (directory : Path) :
    join directory (relpath path start) = directory ++ wayTo start path := by
  unfold join
  rcases relpath_text plainStart plain with ⟨none, isText⟩ | ⟨some_way, isText⟩
  · rw [isText, none]
    rfl
  · rw [isText, joined_relative (wayTo_named named), if_neg Bool.noConfusion,
      parts_joined some_way (wayTo_named named)]

theorem mem_relpath {c : Char} (plainStart : Plain start) (plain : Plain path)
    (member : c ∈ (relpath path start).toList) :
    c = '.' ∨ c = '/' ∨ ∃ name ∈ below start path, c ∈ name.toList := by
  rcases relpath_text plainStart plain with ⟨_, isText⟩ | ⟨_, isText⟩
  · rw [isText] at member
    exact .inl (List.mem_singleton.mp member)
  · rw [isText, String.toList_ofList] at member
    rcases mem_intercalate member with slash | ⟨piece, isPiece, member⟩
    · exact .inr (.inl slash)
    · obtain ⟨name, isName, rfl⟩ := List.mem_map.mp isPiece
      rw [wayTo_eq] at isName
      rcases List.mem_append.mp isName with climbs | isName
      · rw [List.eq_of_mem_replicate climbs] at member
        have dots : c ∈ ['.', '.'] := member
        exact .inl (by simpa using dots)
      · exact .inr (.inr ⟨name, isName, member⟩)

/-- A relative path begins with a dot or with the path's own component. -/
theorem head_relpath {c : Char} (plainStart : Plain start) (plain : Plain path)
    (named : ∀ name ∈ below start path, name ≠ "" ∧ name ≠ "." ∧ '/' ∉ name.toList)
    (isHead : c ∈ (relpath path start).toList.head?) :
    c = '.' ∨ above start path = 0 ∧ ∃ name ∈ (below start path).head?, c ∈ name.toList.head? := by
  have some_named := wayTo_named named
  rcases relpath_text plainStart plain with ⟨_, isText⟩ | ⟨some_way, isText⟩
  · rw [isText] at isHead
    exact .inl (Option.some.inj isHead).symm
  · rw [isText, String.toList_ofList] at isHead
    obtain ⟨first, rest, isWay⟩ := List.exists_cons_of_ne_nil some_way
    rw [isWay] at some_named isHead
    rw [head_joined (some_named first List.mem_cons_self).1] at isHead
    rw [wayTo_eq] at isWay
    cases climbs : above start path with
    | zero =>
      rw [climbs] at isWay
      have isBelow : below start path = first :: rest := isWay
      exact .inr ⟨rfl, first, by rw [isBelow]; rfl, isHead⟩
    | succ count =>
      rw [climbs] at isWay
      rw [← (List.cons.inj isWay).1] at isHead
      exact .inl (Option.some.inj isHead).symm

theorem last_relpath {c : Char} (plainStart : Plain start) (plain : Plain path)
    (named : ∀ name ∈ below start path, name ≠ "" ∧ name ≠ "." ∧ '/' ∉ name.toList)
    (isLast : c ∈ (relpath path start).toList.getLast?) :
    c = '.' ∨ ∃ name ∈ (below start path).getLast?, c ∈ name.toList.getLast? := by
  have some_named := wayTo_named named
  rcases relpath_text plainStart plain with ⟨_, isText⟩ | ⟨some_way, isText⟩
  · rw [isText] at isLast
    exact .inl (Option.some.inj isLast).symm
  · rw [isText, String.toList_ofList] at isLast
    have final : (wayTo start path).getLast some_way ∈ (wayTo start path).getLast? :=
      List.getLast?_eq_some_getLast some_way
    rw [last_joined final (some_named _ (List.getLast_mem some_way)).1] at isLast
    generalize (wayTo start path).getLast some_way = name at final isLast
    rw [wayTo_eq] at final
    by_cases inside : below start path = []
    · rw [inside, List.append_nil] at final
      rw [List.eq_of_mem_replicate (List.mem_of_mem_getLast? final)] at isLast
      exact .inl (Option.some.inj isLast).symm
    · rw [List.getLast?_append_of_ne_nil _ inside] at final
      exact .inr ⟨name, final, isLast⟩

end Relpath

/-- An extension put after a name is the extension of the whole. -/
theorem suffixOf_append {front name : List Char} (some_front : front ≠ [])
    (some_suffix : suffixOf name ≠ []) :
    suffixOf (front ++ suffixOf name) = suffixOf name := by
  unfold suffixOf at some_suffix
  dsimp only at some_suffix
  split at some_suffix
  · exact absurd rfl some_suffix
  · rename_i long
    have isSuffix : suffixOf name = '.' :: (name.reverse.takeWhile (· ≠ '.')).reverse := by
      unfold suffixOf
      exact if_neg long
    rw [isSuffix]
    have plain : ∀ c ∈ name.reverse.takeWhile (· ≠ '.'), (decide (c ≠ '.')) = true :=
      fun c member => List.all_eq_true.mp List.all_takeWhile c member
    generalize name.reverse.takeWhile (· ≠ '.') = tail at long plain
    have some_tail : tail ≠ [] := fun none => long (.inl none)
    have taken : (front ++ '.' :: tail.reverse).reverse.takeWhile (· ≠ '.') = tail := by
      rw [List.reverse_append, List.reverse_cons, List.reverse_reverse, List.append_assoc,
        List.takeWhile_append_of_pos plain]
      simp
    unfold suffixOf
    rw [taken]
    refine if_neg (not_or.mpr ⟨some_tail, ?_⟩)
    have long := List.length_pos_of_ne_nil some_front
    rw [List.length_append, List.length_cons, List.length_reverse]
    omega

end Paths
